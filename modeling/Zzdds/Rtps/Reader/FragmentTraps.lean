import Zzdds.Rtps.Message.Parser
import Zzdds.Rtps.Reader.FragmentArithmetic

/-! # When a fragment stops the program

The parser hands on any 32-bit fragment number and data size and any 16-bit counts and sizes
(`inRange_parseDataFrag`), and along every run of the receiving side the count of held bytes is right and
every reassembly has sizes of these widths (`ReceiveSide.run_counted`).  So the only checks a fragment
can fail are those of `fragment_checks_pass_iff`: its two declared sizes add up to less than `2 ^ 32`
where a reassembly of the sample is started or looked up, and its number is not zero where
a fragment is taken from it. -/

namespace Zzdds.Rtps

open Zzdds.Lib

/-! ### What the parser hands on -/

section parser
open Reader

theorem lt_of_readU16 {r r' : Reader} {n : ℕ} (h : readU16 r = .ok (n, r')) : n < 2 ^ 16 := by
  obtain ⟨b, r₁, -, hb⟩ := Checked.bind_eq_ok.mp h
  cases hb
  have := readInt_lt b.1 b.2.val
  rw [Bytes.length_val] at this
  exact this

theorem lt_of_readU32 {r r' : Reader} {n : ℕ} (h : readU32 r = .ok (n, r')) : n < 2 ^ 32 := by
  obtain ⟨b, r₁, -, hb⟩ := Checked.bind_eq_ok.mp h
  cases hb
  have := readInt_lt b.1 b.2.val
  rw [Bytes.length_val] at this
  exact this

/-- A parsed DATA_FRAG has any values of its fields' widths, and no others. -/
theorem inRange_parseDataFrag {flags : UInt8} {cap : ℕ} {r r' : Reader}
    {df : DataFragSubmessage} (h : parseDataFrag flags cap r = .ok (df, r')) : df.InRange := by
  obtain ⟨_, r₁, -, h⟩ := Checked.bind_eq_ok.mp h
  obtain ⟨_, r₂, -, h⟩ := Checked.bind_eq_ok.mp h
  obtain ⟨_, r₃, -, h⟩ := Checked.bind_eq_ok.mp h
  obtain ⟨_, r₄, -, h⟩ := Checked.bind_eq_ok.mp h
  obtain ⟨_, r₅, -, h⟩ := Checked.bind_eq_ok.mp h
  obtain ⟨fragStart, r₆, hstart, h⟩ := Checked.bind_eq_ok.mp h
  obtain ⟨fragCount, r₇, hcount, h⟩ := Checked.bind_eq_ok.mp h
  obtain ⟨fragSize, r₈, hsize, h⟩ := Checked.bind_eq_ok.mp h
  obtain ⟨dataSize, r₉, hdata, h⟩ := Checked.bind_eq_ok.mp h
  obtain ⟨_, r₁₀, -, h⟩ := Checked.bind_eq_ok.mp h
  obtain ⟨_, r₁₁, -, h⟩ := Checked.bind_eq_ok.mp h
  obtain ⟨_, r₁₂, -, h⟩ := Checked.bind_eq_ok.mp h
  cases h
  exact ⟨lt_of_readU32 hstart, lt_of_readU16 hcount, lt_of_readU16 hsize, lt_of_readU32 hdata⟩

end parser

/-! ### Runs of the receiving side -/

/-- The fragment a step brings has fields of the source's widths. -/
def ReceiveOp.InRange (op : ReceiveOp) : Prop := ∀ df ∈ op.frag, df.InRange

namespace ReceiveSide

/-- The cache counts right and every reassembly has sizes of the source's widths. -/
structure Counted (limits : Limits) (s : ReceiveSide) : Prop where
  accounted : s.cache.Accounted
  limits : s.cache.limits = limits
  entries : s.AllEntries ReassemblyEntry.InRange

variable {limits : Limits} {s s' : ReceiveSide}

theorem inRange_accept {e e' : ReassemblyEntry} {df : DataFragSubmessage} (he : e.InRange)
    (h : e.accept df = some e') : e'.InRange := by
  obtain ⟨h₁, h₂⟩ := ReassemblyEntry.accept_layout h
  exact ⟨h₂ ▸ he.fragmentSize, h₁ ▸ he.dataSize⟩

/-- The entry the cache adds a fragment to. -/
theorem inRange_fragEntry {c : UnmatchedCache} {fresh : ℕ → UInt8} {writer : Guid}
    {target : EntityId} {df : DataFragSubmessage} {ts : RtpsTimestamp} {e : ReassemblyEntry}
    (hc : c.AllEntries ReassemblyEntry.InRange) (hdf : df.InRange)
    (h : c.fragEntry fresh writer target df ts = some e) : e.InRange := by
  unfold UnmatchedCache.fragEntry at h
  split at h
  · cases h
  · split at h
    next w idx hidx =>
      obtain ⟨p, hp, rfl⟩ := Option.map_eq_some_iff.mp h
      obtain ⟨w', hw', hmap⟩ := Option.bind_eq_some_iff.mp hidx
      obtain ⟨i, -, hi⟩ := Option.map_eq_some_iff.mp hmap
      cases hi
      exact hc.getPtr hw' p (List.mem_of_getElem? hp)
    next =>
      rw [Option.join_eq_some_iff] at h
      exact ReassemblyEntry.inRange_init hdf h

theorem step_counted {op : ReceiveOp} (h : s.Counted limits) (hop : op.InRange)
    (hs : s.step op = some s') : s'.Counted limits := by
  cases op with
  | put writer target change hasKeyHash nowNs ttlNs =>
    obtain ⟨c, hc, rfl⟩ := Option.map_eq_some_iff.mp hs
    obtain ⟨hacc, hlim⟩ := UnmatchedCache.put_spec h.accounted hc
    exact ⟨hacc, hlim.trans h.limits, h.entries.1.put hc, h.entries.2⟩
  | putFrag fresh writer target df ts nowNs ttlNs =>
    obtain ⟨c, hc, rfl⟩ := Option.map_eq_some_iff.mp hs
    obtain ⟨hacc, hlim⟩ := UnmatchedCache.putFrag_spec h.accounted hc
    have hdf : df.InRange := hop df rfl
    refine ⟨hacc, hlim.trans h.limits, h.entries.1.putFrag
      (fun e he => ReassemblyEntry.inRange_init hdf he) (fun e e' he hacc => ?_) hc, h.entries.2⟩
    exact inRange_accept (inRange_fragEntry h.entries.1 hdf he) hacc
  | dropWriter writer =>
    cases hs
    exact ⟨UnmatchedCache.accounted_removeWriters h.accounted _, h.limits,
      h.entries.1.removeWriters _, h.entries.2⟩
  | dropPrefix sender =>
    cases hs
    exact ⟨UnmatchedCache.accounted_removeWriters h.accounted _, h.limits,
      h.entries.1.removeWriters _, h.entries.2⟩
  | expire nowNs =>
    cases hs
    exact ⟨UnmatchedCache.accounted_expireLocked h.accounted nowNs, h.limits,
      h.entries.1.expireLocked nowNs, h.entries.2⟩
  | reader op =>
    obtain ⟨r', hr', rfl⟩ := Option.map_eq_some_iff.mp hs
    refine ⟨h.accounted, h.limits, h.entries.1, h.entries.2.step
      (fun m pm isCurrent hop' q hq => ?_) (fun df e e' hdf he hacc => ?_) hr'⟩
    · -- what a match takes comes from the cache
      cases op with
      | matchWriter m' prematch isCurrent' =>
        simp only [ReaderOp.withCache, ReaderOp.matchWriter.injEq] at hop'
        obtain ⟨-, hpm, -⟩ := hop'
        obtain ⟨pm', -, rfl⟩ := Option.map_eq_some_iff.mp hpm
        exact h.entries.1.collect s.reader.core.guid.entityId q hq
      | _ => cases hop'
    · refine inRange_accept ?_ hacc
      cases op with
      | dataFrag w fresh ts df' =>
        simp only [StatefulReader.fragEntry, ReaderOp.withCache, Option.bind_eq_some_iff,
          Option.join_eq_some_iff] at he
        obtain ⟨wp, hw, he⟩ := he
        exact inRange_fragEntryLocked (h.entries.2.find hw) (hop df' rfl) he
      | matchWriter m' prematch isCurrent' => cases he
      | _ => cases he

theorem run_counted : ∀ {ops : List ReceiveOp} {s s' : ReceiveSide}, s.Counted limits →
    (∀ op ∈ ops, op.InRange) → s.run ops = some s' → s'.Counted limits
  | [], s, s', h, _, hrun => by
      cases hrun
      exact h
  | op :: ops, s, s', h, hops, hrun => by
      simp only [run, List.foldlM_cons, Option.bind_eq_bind, Option.bind_eq_some_iff] at hrun
      obtain ⟨s₁, hs₁, hrun⟩ := hrun
      exact run_counted (step_counted h (hops op List.mem_cons_self) hs₁)
        (fun op' hop' => hops op' (List.mem_cons_of_mem op hop')) hrun

/-- A participant that holds nothing yet. -/
theorem counted_init (hc : s.cache = UnmatchedCache.init limits)
    (hr : s.reader.AllEntries ReassemblyEntry.InRange) : s.Counted limits := by
  refine ⟨?_, ?_, ?_, hr⟩
  · rw [hc]
    exact UnmatchedCache.accounted_init limits
  · rw [hc]
    rfl
  · rw [hc]
    exact fun w hw => nomatch hw

end ReceiveSide

/-- **Fragment arithmetic**: in every state reached, by any steps, of a reader and of a cache for
unmatched writers, no check of 32-bit or `usize` arithmetic, of a division, a bit or a slice stops
a fragment's functions, exactly when the two declared sizes of the fragment add up to less than
`2 ^ 32` where they are added and its number is not zero where fragments are taken from it. -/
theorem fragment_checks_pass_iff {limits : Limits} (hl : limits.Sane) {s₀ s : ReceiveSide}
    {ops : List ReceiveOp} (hcache : s₀.cache = UnmatchedCache.init limits)
    (hreader : s₀.reader.AllEntries ReassemblyEntry.InRange) (hops : ∀ op ∈ ops, op.InRange)
    (hrun : s₀.run ops = some s) (fresh : ℕ → UInt8) (ts : RtpsTimestamp)
    {df : DataFragSubmessage} (hdf : df.InRange) :
    (ReassemblyEntry.initChecked fresh df ts ≠ none ↔ df.SizesFit) ∧
    (∀ (e : ReassemblyEntry) start count payload, e.InRange → start < 2 ^ 32 → count < 2 ^ 16 →
      (e.receiveFragChecked start count payload ≠ none ↔ (start = 0 → count = 0))) ∧
    ∀ writer,
      (s.reader.handleDataFragChecked writer fresh ts df ≠ none ↔
        ∀ wp, s.reader.find writer = some wp → takesFrag s.reader.core wp df.writerSn →
          df.HasFragments → df.SizesFit ∧ df.NumberFits) ∧
      ∀ target nowNs ttlNs,
        (s.cache.putFragChecked fresh writer target df ts nowNs ttlNs ≠ none ↔
          (s.cache.holdsSample writer target df.writerSn = false →
            (s.cache.inProgress writer target df.writerSn = true → df.NumberFits) ∧
            (s.cache.inProgress writer target df.writerSn = false →
              s.cache.HasRoom writer df.dataSize nowNs → df.HasFragments →
                df.SizesFit ∧ df.NumberFits))) := by
  refine ⟨?_, fun e start count payload he hs hc => ?_, fun writer => ?_⟩
  · rw [ReassemblyEntry.initChecked_eq, ne_eq, ReassemblyEntry.init_eq_none_iff]
    unfold DataFragSubmessage.SizesFit
    omega
  · rw [ReassemblyEntry.receiveFragChecked_eq he hs hc, ne_eq,
      ReassemblyEntry.receiveFrag_eq_none_iff]
    omega
  · have hcounted := ReceiveSide.run_counted (ReceiveSide.counted_init hcache hreader) hops hrun
    refine ⟨?_, fun target nowNs ttlNs => ?_⟩
    · unfold StatefulReader.handleDataFragChecked StatefulReader.onProxy
      cases hw : s.reader.find writer with
      | none => exact ⟨fun _ wp h => (nomatch h), fun _ h => nomatch h⟩
      | some wp =>
        have hwp := hcounted.entries.2.find hw
        have hiff := handleDataFragLocked_ne_none_iff s.reader.core wp fresh ts df
        simp only [handleDataFragCheckedLocked_eq hwp hdf, ne_eq, Option.map_eq_none_iff]
        refine hiff.trans ⟨fun h wp' hwp' => ?_, fun h => h wp rfl⟩
        cases hwp'
        exact h
    · have hlim := hcounted.limits
      rw [UnmatchedCache.putFragChecked_eq hcounted.accounted (by rw [hlim]; exact hl)
        hcounted.entries.1 hdf]
      exact UnmatchedCache.putFrag_ne_none_iff hcounted.accounted (by rw [hlim]; exact hl)

/-! ### Two datagrams that stop the program -/

/-- A DATA_FRAG of a four-byte sample in a datagram, with the given fragment number and data
size. -/
def fragDatagram (fragStart dataSize : ℕ) : List UInt8 :=
  PROTOCOL_ID ++ [2, 5, 0x01, 0x1b] ++ List.replicate 12 0 ++ [0x16, 0x01, 36, 0] ++
    [0, 0, 28, 0] ++ List.replicate 4 0 ++ [0, 0, 0, 0x02] ++ leBytes 4 0 ++ leBytes 4 1 ++
    leBytes 4 fragStart ++ [1, 0, 4, 0] ++ leBytes 4 dataSize ++ [1, 2, 3, 4]

/-- What the parser makes of it. -/
def fragOf (fragStart dataSize : ℕ) : DataFragSubmessage where
  flags := FLAG_ENDIANNESS
  readerEntityId := EntityId.unknown
  writerEntityId := remoteWriter.guid.entityId
  writerSn := 1
  fragmentStartingNum := fragStart
  fragmentsInSubmessage := 1
  fragmentSize := 4
  dataSize := dataSize
  inlineQos := none
  serializedPayload := [1, 2, 3, 4]

theorem fragment_checks_pass_iff_fragOf :
    matchedSide.cache.limits.Sane ∧ (fragOf 1 4).InRange ∧
      (ReassemblyEntry.initChecked (fun _ => 0) (fragOf 1 4) ⟨0, 0⟩ ≠ none ↔
        (fragOf 1 4).SizesFit) := by
  have hl : matchedSide.cache.limits.Sane := ⟨by decide, by decide, by decide⟩
  have hdf : (fragOf 1 4).InRange := ⟨by decide, by decide, by decide, by decide⟩
  have hreader : matchedSide.reader.AllEntries ReassemblyEntry.InRange := by
    intro wp hwp q hq
    cases List.mem_singleton.mp hwp
    cases hq
  have hrun : matchedSide.run [] = some matchedSide := rfl
  have hops : ∀ op ∈ ([] : List ReceiveOp), op.InRange := fun op hop => absurd hop List.not_mem_nil
  refine ⟨hl, hdf, ?_⟩
  exact (fragment_checks_pass_iff hl rfl hreader hops hrun (fun _ => 0) ⟨0, 0⟩ hdf).1

/-- Fragment number zero stops a reader that has matched the writer, and the cache when it has
not; a data size next to `2 ^ 32` stops the reader as well. -/
theorem fragment_checks_fail :
    ((MessageIterator.init (fragDatagram 0 4)).bind (fun it => (it.next 32).1) =
        .ok (some (.dataFrag (fragOf 0 4))) ∧
      matchedSide.reader.handleDataFragChecked remoteWriter.guid (fun _ => 0) ⟨0, 0⟩ (fragOf 0 4) =
        none ∧
      (UnmatchedCache.init UNMATCHED_LIMITS).putFragChecked (fun _ => 0) remoteWriter.guid
        EntityId.unknown (fragOf 0 4) ⟨0, 0⟩ 0 1 = none) ∧
    (MessageIterator.init (fragDatagram 1 (2 ^ 32 - 1))).bind (fun it => (it.next 32).1) =
        .ok (some (.dataFrag (fragOf 1 (2 ^ 32 - 1)))) ∧
      ReassemblyEntry.initChecked (fun _ => 0) (fragOf 1 (2 ^ 32 - 1)) ⟨0, 0⟩ = none := by
  refine ⟨⟨by decide, ?_, by decide⟩, by decide, ?_⟩
  · have hcheck : (matchedSide.reader.handleDataFragChecked remoteWriter.guid (fun _ => 0) ⟨0, 0⟩
        (fragOf 0 4)).isNone = true := by decide
    exact Option.isNone_iff_eq_none.mp hcheck
  · rw [ReassemblyEntry.initChecked_eq]
    exact (ReassemblyEntry.init_eq_none_iff _ _ _).mpr ⟨by decide, by decide, by decide⟩

end Zzdds.Rtps
