import Zzdds.Lib.Run
import Zzdds.Lib.Table
import Zzdds.Rtps.Reservations

/-! # The slots announcements are written in

`Announcements` of `sedp.zig`, whole, over the writers that come and go: for each endpoint its
encoded announcement and disposal, and a slot reserved in the history of the writer attached.  A
call gives what it took, freed and handed to the writer, and the slots it reserved and used.

`AnnouncementsInUse` adds up what the source does not: the buffers of all calls, the endpoints that
have a slot reserved in the writer, and those announced to it. -/

namespace Zzdds.Discovery

open Lib Rtps

/-- An encoded announcement or disposal. -/
structure Buffer where
  address : ℕ
  bytes : List UInt8
deriving DecidableEq, Repr

structure AnnouncingWriter where
  guid : Guid
  cache : ReservingCache
deriving DecidableEq, Repr

/-- The writer keeps the last change of each endpoint. -/
def AnnouncingWriter.init (guid : Guid) : AnnouncingWriter where
  guid := guid
  cache := .init .keepLast 1

def AnnouncingWriter.writeReserved (w : AnnouncingWriter) (kind : ChangeKind) (now : RtpsTimestamp)
    (kh : KeyHash) (data : Buffer) (usesReservation : Bool) : Option AnnouncingWriter :=
  (w.cache.addReservedWriterChange kind w.guid now kh kh data.bytes usesReservation).map
    fun (_, cache) => { w with cache := cache }

/-! ### The calls -/

namespace Announcements

/-- What is prepared for an endpoint; a slot may be reserved for it in the writer's history. -/
structure Prepared where
  payload : Option Buffer
  staged : Option Buffer := none
  disposal : Buffer
  slot : Bool
  announced : Bool := false

def Prepared.buffers (p : Prepared) : List Buffer :=
  p.payload.toList ++ p.staged.toList ++ [p.disposal]

/-- What a call did, other than to the announcements. -/
structure Done where
  failed : Bool := false
  taken : List Buffer := []
  freed : List Buffer := []
  handed : List Buffer := []
  /-- What was written, and whether into a reserved slot. -/
  wrote : Option (KeyHash × Bool) := none
  /-- The endpoints a slot was reserved for. -/
  reserved : List KeyHash := []
  /-- The endpoint whose reserved slot was written into or given back. -/
  used : Option KeyHash := none

end Announcements

structure Announcements where
  writer : Option AnnouncingWriter := none
  endpoints : Table KeyHash Announcements.Prepared := ∅

namespace Announcements

variable (s : Announcements)

/-- The endpoints without a slot. -/
def unreserved : List KeyHash := (s.endpoints.entries.filter fun e => !e.2.slot).map Sigma.fst

def attachWriter (guid : Guid) (spare : Option ℕ) : Announcements × Done :=
  match (AnnouncingWriter.init guid).cache.reserve s.unreserved.length spare with
  | none => (s, { failed := true })
  | some cache =>
      ({ writer := some ⟨guid, cache⟩
         endpoints := s.endpoints.mapValues fun p => { p with slot := true } },
        { reserved := s.unreserved })

def detachWriter : Announcements where
  writer := none
  endpoints := s.endpoints.mapValues fun p => { p with slot := false, announced := false }

/-- `mapped` is whether the map takes a new entry. -/
def prepare (kh : KeyHash) (payload disposal : Buffer) (mapped : Bool) (spare : Option ℕ) :
    Announcements × Done :=
  match s.endpoints.lookup kh with
  | some p =>
      ({ s with endpoints := s.endpoints.insert kh { p with staged := some payload } },
        { taken := [payload, disposal], freed := p.staged.toList ++ [disposal] })
  | none =>
      let prepared : Prepared :=
        { payload := some payload, disposal := disposal, slot := s.writer.isSome }
      if !mapped then (s, { failed := true })
      else
        match s.writer with
        | none =>
            ({ s with endpoints := s.endpoints.insert kh prepared },
              { taken := [payload, disposal] })
        | some w =>
            match w.cache.reserve 1 spare with
            | none => (s, { failed := true })
            | some cache =>
                ({ writer := some { w with cache := cache }
                   endpoints := s.endpoints.insert kh prepared },
                  { taken := [payload, disposal], reserved := [kh] })

def adopt (kh : KeyHash) : Announcements × Done :=
  match s.endpoints.lookup kh with
  | none => (s, {})
  | some p =>
      match p.staged with
      | none => (s, {})
      | some staged =>
          ({ s with endpoints :=
              s.endpoints.insert kh { p with payload := some staged, staged := none } },
            { freed := p.payload.toList })

def abandon (kh : KeyHash) : Announcements × Done :=
  match s.endpoints.lookup kh with
  | none => (s, {})
  | some p =>
      ({ s with endpoints := s.endpoints.insert kh { p with staged := none } },
        { freed := p.staged.toList })

/-- Nothing is written before there is a writer. -/
def announce (kh : KeyHash) (now : RtpsTimestamp) : Option (Announcements × Done) :=
  match s.endpoints.lookup kh with
  | none => some (s, {})
  | some p =>
      match p.payload with
      | none => some (s, {})
      | some payload =>
          let endpoints := s.endpoints.insert kh { p with payload := none, announced := true }
          match s.writer with
          | none => some ({ s with endpoints := endpoints }, { freed := [payload] })
          | some w =>
              (w.writeReserved .alive now kh payload (!p.announced)).map fun w =>
                ({ writer := some w, endpoints := endpoints },
                  { handed := [payload]
                    wrote := some (kh, !p.announced)
                    used := if p.announced then none else some kh })

/-- The disposal of an endpoint that was announced replaces its announcement. -/
def retract (kh : KeyHash) (now : RtpsTimestamp) : Option (Announcements × Done) :=
  match s.endpoints.lookup kh with
  | none => some (s, {})
  | some p =>
      let endpoints := s.endpoints.erase kh
      let freed := p.payload.toList ++ p.staged.toList
      match s.writer with
      | none => some ({ s with endpoints := endpoints }, { freed := freed ++ [p.disposal] })
      | some w =>
          if p.announced then
            (w.writeReserved .notAliveDisposed now kh p.disposal false).map fun w =>
              ({ writer := some w, endpoints := endpoints },
                { freed := freed, handed := [p.disposal], wrote := some (kh, false) })
          else
            (if p.slot then w.cache.release 1 else some w.cache).map fun cache =>
              ({ writer := some { w with cache := cache }, endpoints := endpoints },
                { freed := freed ++ [p.disposal], used := if p.slot then some kh else none })

inductive Call where
  | prepare (kh : KeyHash) (payload disposal : Buffer) (mapped : Bool) (spare : Option ℕ)
  | adopt (kh : KeyHash)
  | abandon (kh : KeyHash)
  | announce (kh : KeyHash) (now : RtpsTimestamp)
  | retract (kh : KeyHash) (now : RtpsTimestamp)
  /-- A new writer is attached. -/
  | attachWriter (guid : Guid) (spare : Option ℕ)
  | detachWriter

/-- None where the call stops the program. -/
def call : Call → Option (Announcements × Done)
  | .prepare kh payload disposal mapped spare => some (s.prepare kh payload disposal mapped spare)
  | .adopt kh => some (s.adopt kh)
  | .abandon kh => some (s.abandon kh)
  | .announce kh now => s.announce kh now
  | .retract kh now => s.retract kh now
  | .attachWriter guid spare => some (s.attachWriter guid spare)
  | .detachWriter => some (s.detachWriter, {})

/-- A writer is attached once the one before it is detached. -/
def Called : Call → Prop
  | .attachWriter _ _ => s.writer = none
  | _ => True

/-- An endpoint that counts as announced has a change in the history of the writer attached. -/
def Replaceable (kh : KeyHash) : Prop :=
  match s.writer, s.endpoints.lookup kh with
  | some w, some p => p.announced → w.cache.Holds kh
  | _, _ => True

/-- An endpoint announced while there was no writer is neither announced again nor retracted under
the next one. -/
def Meets : Call → Prop
  | .announce kh _ => ((s.endpoints.lookup kh).bind (·.payload)).isSome → s.Replaceable kh
  | .retract kh _ => s.Replaceable kh
  | .attachWriter _ _ => s.writer = none
  | _ => True

instance (a : Call) : Decidable (s.Called a) := by
  unfold Called
  split <;> infer_instance

instance (kh : KeyHash) : Decidable (s.Replaceable kh) := by
  unfold Replaceable
  split <;> infer_instance

instance (a : Call) : Decidable (s.Meets a) := by
  unfold Meets
  split <;> infer_instance

/-! ### The buffers -/

/-- What is freed with the announcements. -/
def deinit : List Buffer := s.endpoints.values.flatMap Prepared.buffers

variable {s}

/-- The buffers of an entry there may be. -/
def buffersOf (o : Option Prepared) : List Buffer := o.toList.flatMap Prepared.buffers

theorem count_deinit_erase (w : Option AnnouncingWriter) (kh : KeyHash) (b : Buffer) :
    (deinit ⟨w, s.endpoints.erase kh⟩).count b + (buffersOf (s.endpoints.lookup kh)).count b =
      s.deinit.count b := by
  cases hlookup : s.endpoints.lookup kh with
  | none =>
    rw [Table.erase_of_lookup_none hlookup]
    rfl
  | some p =>
    have hperm := (Table.values_perm_erase hlookup).flatMap_right Prepared.buffers
    rw [deinit, deinit, hperm.count_eq, List.flatMap_cons, List.count_append, add_comm]
    simp only [buffersOf, Option.toList_some, List.flatMap_cons, List.flatMap_nil, List.append_nil]

theorem count_deinit_insert (w : Option AnnouncingWriter) (kh : KeyHash) (p : Prepared)
    (b : Buffer) :
    (deinit ⟨w, s.endpoints.insert kh p⟩).count b +
        (buffersOf (s.endpoints.lookup kh)).count b = s.deinit.count b + p.buffers.count b := by
  have herase := count_deinit_erase (s := s) w kh b
  have hinsert : (deinit ⟨w, s.endpoints.insert kh p⟩).count b =
      p.buffers.count b + (deinit ⟨w, s.endpoints.erase kh⟩).count b := by
    simp only [deinit, Table.values_insert, List.flatMap_cons, List.count_append]
  omega

theorem count_buffers (p : Prepared) (b : Buffer) : p.buffers.count b =
    p.payload.toList.count b + p.staged.toList.count b + [p.disposal].count b := by
  rw [Prepared.buffers, List.count_append, List.count_append]

/-- An entry is replaced: what it had is still kept, or else freed or handed over. -/
theorem balanced_insert {kh : KeyHash} {p : Prepared} (w : Option AnnouncingWriter) {d : Done}
    {b : Buffer} (h : p.buffers.count b + d.freed.count b + d.handed.count b =
      (buffersOf (s.endpoints.lookup kh)).count b + d.taken.count b) :
    (deinit ⟨w, s.endpoints.insert kh p⟩).count b + d.freed.count b + d.handed.count b =
      s.deinit.count b + d.taken.count b := by
  have hinsert := count_deinit_insert (s := s) w kh p b
  omega

theorem balanced_erase {kh : KeyHash} (w : Option AnnouncingWriter) {d : Done} {b : Buffer}
    (h : d.freed.count b + d.handed.count b =
      (buffersOf (s.endpoints.lookup kh)).count b + d.taken.count b) :
    (deinit ⟨w, s.endpoints.erase kh⟩).count b + d.freed.count b + d.handed.count b =
      s.deinit.count b + d.taken.count b := by
  have herase := count_deinit_erase (s := s) w kh b
  omega

theorem deinit_mapValues (w : Option AnnouncingWriter) {f : Prepared → Prepared}
    (hf : ∀ p, (f p).buffers = p.buffers) : deinit ⟨w, s.endpoints.mapValues f⟩ = s.deinit := by
  rw [deinit, Table.values_mapValues, List.flatMap_map, deinit]
  exact List.flatMap_congr fun p _ => hf p

theorem buffersOf_some (p : Prepared) : buffersOf (some p) = p.buffers := by
  simp only [buffersOf, Option.toList_some, List.flatMap_cons, List.flatMap_nil, List.append_nil]

section balanced

variable {t : Announcements} {d : Done} {kh : KeyHash} {now : RtpsTimestamp} (b : Buffer)

theorem prepare_balanced {payload disposal : Buffer} {mapped : Bool} {spare : Option ℕ}
    (h : s.prepare kh payload disposal mapped spare = (t, d)) :
    t.deinit.count b + d.freed.count b + d.handed.count b =
      s.deinit.count b + d.taken.count b := by
  unfold prepare at h
  split at h
  next p hlookup =>
    cases h
    refine balanced_insert s.writer ?_
    rw [hlookup, buffersOf_some, count_buffers, count_buffers]
    simp only [Option.toList_some, List.count_append, List.count_cons, List.count_nil]
    omega
  next hlookup =>
    have added (w : Option AnnouncingWriter) (slot : Bool) (reserved : List KeyHash) :
        (deinit ⟨w, s.endpoints.insert kh
          { payload := some payload, disposal := disposal, slot := slot }⟩).count b + 0 + 0 =
          s.deinit.count b + [payload, disposal].count b := by
      refine balanced_insert w (d := { taken := [payload, disposal] }) ?_
      rw [hlookup, count_buffers]
      simp only [buffersOf, Option.toList_some, Option.toList_none, List.flatMap_nil,
        List.count_cons, List.count_nil]
      omega
    dsimp only at h
    split at h
    next => cases h; rfl
    next =>
      split at h
      next => cases h; exact added _ _ []
      next w _ =>
        split at h
        next => cases h; rfl
        next => cases h; exact added _ _ [kh]

theorem adopt_balanced (h : s.adopt kh = (t, d)) :
    t.deinit.count b + d.freed.count b + d.handed.count b =
      s.deinit.count b + d.taken.count b := by
  unfold adopt at h
  split at h
  next => cases h; rfl
  next p hlookup =>
    split at h
    next => cases h; rfl
    next staged hstaged =>
      cases h
      refine balanced_insert s.writer ?_
      rw [hlookup, buffersOf_some, count_buffers, count_buffers, hstaged]
      simp only [Option.toList_some, Option.toList_none, List.count_nil]
      omega

theorem abandon_balanced (h : s.abandon kh = (t, d)) :
    t.deinit.count b + d.freed.count b + d.handed.count b =
      s.deinit.count b + d.taken.count b := by
  unfold abandon at h
  split at h
  next => cases h; rfl
  next p hlookup =>
    cases h
    refine balanced_insert s.writer ?_
    rw [hlookup, buffersOf_some, count_buffers, count_buffers]
    simp only [Option.toList_none, List.count_nil]
    omega

theorem announce_balanced (h : s.announce kh now = some (t, d)) :
    t.deinit.count b + d.freed.count b + d.handed.count b =
      s.deinit.count b + d.taken.count b := by
  unfold announce at h
  split at h
  next => cases h; rfl
  next p hlookup =>
    split at h
    next => cases h; rfl
    next payload hpayload =>
      have written (w : Option AnnouncingWriter) (d : Done)
          (hd : d.freed.count b + d.handed.count b = [payload].count b + d.taken.count b) :
          (deinit ⟨w, s.endpoints.insert kh { p with payload := none, announced := true }⟩).count b
            + d.freed.count b + d.handed.count b = s.deinit.count b + d.taken.count b := by
        refine balanced_insert w ?_
        rw [hlookup, buffersOf_some, count_buffers, count_buffers, hpayload]
        simp only [Option.toList_some, Option.toList_none, List.count_nil]
        omega
      dsimp only at h
      split at h
      next =>
        cases h
        exact written _ { freed := [payload] } rfl
      next w _ =>
        obtain ⟨w', -, h⟩ := Option.map_eq_some_iff.mp h
        cases h
        exact written _ _ (Nat.zero_add _)

theorem retract_balanced (h : s.retract kh now = some (t, d)) :
    t.deinit.count b + d.freed.count b + d.handed.count b =
      s.deinit.count b + d.taken.count b := by
  unfold retract at h
  split at h
  next => cases h; rfl
  next p hlookup =>
    have gone (w : Option AnnouncingWriter) (d : Done)
        (hd : d.freed.count b + d.handed.count b = p.buffers.count b + d.taken.count b) :
        (deinit ⟨w, s.endpoints.erase kh⟩).count b + d.freed.count b + d.handed.count b =
          s.deinit.count b + d.taken.count b :=
      balanced_erase w (by rw [hlookup, buffersOf_some]; exact hd)
    dsimp only at h
    split at h
    next =>
      cases h
      exact gone _ { freed := p.buffers } rfl
    next w _ =>
      split at h
      next =>
        obtain ⟨w', -, h⟩ := Option.map_eq_some_iff.mp h
        cases h
        refine gone _ _ ?_
        rw [count_buffers, List.count_append]
        rfl
      next =>
        obtain ⟨cache, -, h⟩ := Option.map_eq_some_iff.mp h
        cases h
        exact gone _ _ rfl

/-- What a call does with the buffers: those there were and those it took are kept, freed or handed
over. -/
theorem call_balanced {a : Call} (h : s.call a = some (t, d)) :
    t.deinit.count b + d.freed.count b + d.handed.count b =
      s.deinit.count b + d.taken.count b := by
  cases a with
  | prepare _ _ _ _ _ => exact prepare_balanced b (Option.some.inj h)
  | adopt _ => exact adopt_balanced b (Option.some.inj h)
  | abandon _ => exact abandon_balanced b (Option.some.inj h)
  | announce _ _ => exact announce_balanced b h
  | retract _ _ => exact retract_balanced b h
  | attachWriter guid spare =>
    replace h := Option.some.inj h
    unfold attachWriter at h
    split at h
    next => cases h; rfl
    next =>
      cases h
      rw [deinit_mapValues (f := fun p => { p with slot := true }) _ fun _ => rfl]
      rfl
  | detachWriter =>
    cases h
    rw [detachWriter,
      deinit_mapValues (f := fun p => { p with slot := false, announced := false }) _ fun _ => rfl]
    rfl

end balanced

/-! ### The slots -/

end Announcements

open Announcements

/-- The announcements, with all buffers so far, the endpoints that have a slot reserved in the
writer attached, and those announced to it. -/
structure AnnouncementsInUse extends Announcements where
  taken : List Buffer := []
  freed : List Buffer := []
  handed : List Buffer := []
  holders : List KeyHash := []
  told : List KeyHash := []

namespace AnnouncementsInUse

variable (s : AnnouncementsInUse)

def holdersAfter (a : Call) (d : Done) : List KeyHash :=
  match a, d.used with
  | .detachWriter, _ => []
  | _, some kh => s.holders.erase kh
  | _, none => d.reserved ++ s.holders

def toldAfter (a : Call) (d : Done) : List KeyHash :=
  match a with
  | .announce kh _ => if d.wrote.isSome then kh :: s.told else s.told
  | .retract kh _ => s.told.filter (· ≠ kh)
  | .detachWriter => []
  | _ => s.told

def after (a : Call) (t : Announcements) (d : Done) : AnnouncementsInUse where
  toAnnouncements := t
  taken := s.taken ++ d.taken
  freed := s.freed ++ d.freed
  handed := s.handed ++ d.handed
  holders := s.holdersAfter a d
  told := s.toldAfter a d

def step (a : Call) : Option AnnouncementsInUse :=
  (s.call a).map fun (t, d) => s.after a t d

/-- The prepared endpoints not yet announced to the writer attached. -/
def untold : List KeyHash := s.endpoints.keys.filter (· ∉ s.told)

/-- What holds of the announcements between calls. -/
structure Kept : Prop where
  /-- A slot is reserved for each endpoint not yet announced. -/
  counted : ∀ w, s.writer = some w → w.cache.reserved = s.untold.length
  held : ∀ w, s.writer = some w → s.holders.Perm s.untold
  /-- There is room for all of them. -/
  room : ∀ w, s.writer = some w → w.cache.changes.length + w.cache.reserved ≤ w.cache.capacity
  /-- Every buffer is still prepared, freed or handed over, once. -/
  accounted : ∀ b, s.deinit.count b + s.freed.count b + s.handed.count b = s.taken.count b

/-- A call runs through; one that fails changes nothing, and what it writes takes a slot reserved
for the endpoint or replaces its last change. -/
def Good (a : Call) : Prop := ∃ t d, s.call a = some (t, d) ∧
  (d.failed → t = s.toAnnouncements ∧ d = { failed := true }) ∧
  ∀ kh usesReservation, d.wrote = some (kh, usesReservation) →
    if usesReservation then kh ∈ s.holders else ∃ w, s.writer = some w ∧ w.cache.Holds kh

end AnnouncementsInUse

/-! ### What carries a run -/

/-- The flags of the endpoints agree with the history of the writer attached, where `holders` have
a slot reserved in it and `told` are announced to it. -/
structure Announcements.Slots (s : Announcements) (holders told : List KeyHash) : Prop where
  roomy : ∀ w, s.writer = some w → w.cache.Roomy ∧ w.cache.reserved = holders.length
  idle : s.writer = none → holders = [] ∧ told = []
  slot : ∀ kh p, s.endpoints.lookup kh = some p → p.slot = s.writer.isSome
  nodup : holders.Nodup
  mem_holders : s.writer.isSome → ∀ kh,
    kh ∈ holders ↔ (s.endpoints.lookup kh).isSome ∧ kh ∉ told
  of_told : ∀ kh ∈ told, ∃ w p, s.writer = some w ∧ s.endpoints.lookup kh = some p ∧
    p.announced ∧ w.cache.Holds kh
  /-- An endpoint that counts as announced has a change in the history only if it was. -/
  mem_told : ∀ kh w p, s.writer = some w → s.endpoints.lookup kh = some p → p.announced →
    w.cache.Holds kh → kh ∈ told

namespace Announcements.Slots

variable {s : Announcements} {holders told : List KeyHash}

/-- An entry changes, but neither its slot nor, once it is announced, that it is. -/
theorem edit (hs : s.Slots holders told) {kh : KeyHash} {p p' : Prepared}
    (hlookup : s.endpoints.lookup kh = some p) (hslot : p'.slot = p.slot)
    (hkept : p.announced → p'.announced)
    (hnew : p'.announced → p.announced ∨ s.writer = none) :
    Slots { s with endpoints := s.endpoints.insert kh p' } holders told where
  roomy := hs.roomy
  idle := hs.idle
  slot kh' q hq := by
    rw [Table.lookup_insert_eq] at hq
    split at hq
    next =>
      cases hq
      exact hslot.trans (hs.slot kh p hlookup)
    next => exact hs.slot kh' q hq
  nodup := hs.nodup
  mem_holders hw kh' := by
    rw [hs.mem_holders hw kh', Table.lookup_insert_eq]
    split
    next h => rw [h, hlookup, Option.isSome_some, Option.isSome_some]
    next => rfl
  of_told kh' hkh' := by
    obtain ⟨w, q, hw, hq, hannounced, hholds⟩ := hs.of_told kh' hkh'
    dsimp only
    rw [Table.lookup_insert_eq]
    split
    next h =>
      rw [h, hlookup] at hq
      cases hq
      exact ⟨w, p', hw, rfl, hkept hannounced, hholds⟩
    next => exact ⟨w, q, hw, hq, hannounced, hholds⟩
  mem_told kh' w q hw hq hannounced hholds := by
    rw [Table.lookup_insert_eq] at hq
    split at hq
    next h =>
      cases hq
      have hp := (hnew hannounced).resolve_right fun hnone => nomatch hnone.symm.trans hw
      exact hs.mem_told kh' w p hw (h ▸ hlookup) hp hholds
    next => exact hs.mem_told kh' w q hw hq hannounced hholds

/-- While there is no writer, no slot is reserved. -/
theorem of_idle (hw : s.writer = none)
    (hslot : ∀ kh p, s.endpoints.lookup kh = some p → p.slot = false) : s.Slots [] [] where
  roomy w h := nomatch hw.symm.trans h
  idle _ := ⟨rfl, rfl⟩
  slot kh p h := by rw [hslot kh p h, hw, Option.isSome_none]
  nodup := List.nodup_nil
  mem_holders h := by
    rw [hw] at h
    cases h
  of_told kh h := nomatch h
  mem_told kh w p h := nomatch hw.symm.trans h

variable {w : AnnouncingWriter} {cache : ReservingCache} {kh : KeyHash} {p : Prepared}

/-- A new entry, with a slot reserved for it. -/
theorem add (hs : s.Slots holders told) (hw : s.writer = some w)
    (hlookup : s.endpoints.lookup kh = none) {spare : Option ℕ}
    (hreserve : w.cache.reserve 1 spare = some cache) (hslot : p.slot)
    (hnew : p.announced = false) :
    Slots ⟨some { w with cache := cache }, s.endpoints.insert kh p⟩ (kh :: holders) told := by
  have hisSome : s.writer.isSome := hw ▸ Option.isSome_some
  have hmem := hs.mem_holders hisSome
  obtain ⟨hroomy, hreserved⟩ := hs.roomy w hw
  obtain ⟨hsame, hcount, -⟩ := ReservingCache.reserve_spec hreserve
  have hholds (ih : InstanceHandle) : cache.Holds ih ↔ w.cache.Holds ih := by
    rw [ReservingCache.Holds, hsame, ReservingCache.Holds]
  have hnotTold : kh ∉ told := fun h => by
    obtain ⟨_, _, _, hsome, _⟩ := hs.of_told kh h
    cases hlookup.symm.trans hsome
  have hnotHolder : kh ∉ holders := fun h => by
    have := ((hmem kh).mp h).1
    rw [hlookup] at this
    cases this
  constructor
  case roomy =>
    rintro _ ⟨⟩
    exact ⟨hroomy.reserve hreserve, by rw [List.length_cons, ← hreserved]; exact hcount⟩
  case idle => exact fun h => by cases h
  case slot =>
    intro kh' q hq
    rw [Table.lookup_insert_eq] at hq
    split at hq
    next =>
      cases hq
      exact hslot
    next => exact (hs.slot kh' q hq).trans hisSome
  case nodup => exact List.nodup_cons.mpr ⟨hnotHolder, hs.nodup⟩
  case mem_holders =>
    intro _ kh'
    rw [List.mem_cons, Table.lookup_insert_eq]
    split
    next h =>
      rw [h, Option.isSome_some]
      exact iff_of_true (.inl rfl) ⟨rfl, hnotTold⟩
    next h => exact (or_iff_right h).trans (hmem kh')
  case of_told =>
    intro kh' hkh'
    obtain ⟨w', q, hw', hq, hannounced, hheld⟩ := hs.of_told kh' hkh'
    cases hw.symm.trans hw'
    refine ⟨_, q, rfl, ?_, hannounced, (hholds kh').mpr hheld⟩
    rw [Table.lookup_insert_eq, if_neg fun h : kh' = kh => hnotTold (h ▸ hkh'), hq]
  case mem_told =>
    rintro kh' _ q ⟨⟩ hq hannounced hheld
    rw [Table.lookup_insert_eq] at hq
    split at hq
    next =>
      cases hq
      cases hnew.symm.trans hannounced
    next => exact hs.mem_told kh' w q hw hq hannounced ((hholds kh').mp hheld)

/-- An announcement is written, into the endpoint's slot or in place of the last one. -/
theorem write (hs : s.Slots holders told) (hw : s.writer = some w)
    (hlookup : s.endpoints.lookup kh = some p) (hlast : p.announced → w.cache.Holds kh)
    (hroomy : cache.Roomy)
    (hreserved : cache.reserved = w.cache.reserved - (if !p.announced then 1 else 0))
    (hholds : ∀ ih, cache.Holds ih ↔ ih = kh ∨ w.cache.Holds ih) :
    Slots ⟨some { w with cache := cache },
        s.endpoints.insert kh { p with payload := none, announced := true }⟩
      (if p.announced then holders else holders.erase kh) (kh :: told) := by
  have hisSome : s.writer.isSome := hw ▸ Option.isSome_some
  have hmem := hs.mem_holders hisSome
  have hcount := (hs.roomy w hw).2
  have htold : p.announced = false → kh ∉ told := fun hnot h => by
    obtain ⟨_, q, _, hq, hannounced, _⟩ := hs.of_told kh h
    cases hlookup.symm.trans hq
    cases hnot.symm.trans hannounced
  have hmem' (kh' : KeyHash) : kh' ∈ (if p.announced then holders else holders.erase kh) ↔
      kh' ∈ holders ∧ kh' ≠ kh := by
    cases hp : p.announced with
    | false =>
      rw [if_neg Bool.false_ne_true, hs.nodup.mem_erase_iff]
      exact and_comm
    | true =>
      have hnot : kh ∉ holders := fun h =>
        ((hmem kh).mp h).2 (hs.mem_told kh w p hw hlookup hp (hlast hp))
      rw [if_pos rfl]
      exact ⟨fun h => ⟨h, fun e => hnot (e ▸ h)⟩, And.left⟩
  constructor
  case roomy =>
    rintro _ ⟨⟩
    refine ⟨hroomy, hreserved.trans ?_⟩
    cases hp : p.announced with
    | false =>
      have hholder : kh ∈ holders :=
        (hmem kh).mpr ⟨by rw [hlookup, Option.isSome_some], htold hp⟩
      rw [hcount, if_neg Bool.false_ne_true, List.length_erase_of_mem hholder]
      rfl
    | true =>
      rw [hcount]
      rfl
  case idle => exact fun h => nomatch h
  case slot =>
    intro kh' q hq
    rw [Table.lookup_insert_eq] at hq
    split at hq
    next =>
      cases hq
      exact (hs.slot kh p hlookup).trans hisSome
    next => exact (hs.slot kh' q hq).trans hisSome
  case nodup =>
    split
    next => exact hs.nodup
    next => exact hs.nodup.erase kh
  case mem_holders =>
    intro _ kh'
    rw [hmem', hmem kh', List.mem_cons, Table.lookup_insert_eq, not_or]
    split
    next h => exact iff_of_false (fun h' => h'.2 h) fun h' => h'.2.1 h
    next h => exact ⟨fun h' => ⟨h'.1.1, h, h'.1.2⟩, fun h' => ⟨⟨h'.1, h'.2.2⟩, h⟩⟩
  case of_told =>
    intro kh' hkh'
    rw [Table.lookup_insert_eq]
    split
    next h => exact ⟨_, _, rfl, rfl, rfl, (hholds kh').mpr (.inl h)⟩
    next h =>
      obtain ⟨w', q, hw', hq, hannounced, hheld⟩ :=
        hs.of_told kh' ((List.mem_cons.mp hkh').resolve_left h)
      cases hw.symm.trans hw'
      exact ⟨_, q, rfl, hq, hannounced, (hholds kh').mpr (.inr hheld)⟩
  case mem_told =>
    rintro kh' _ q ⟨⟩ hq hannounced hheld
    rw [Table.lookup_insert_eq] at hq
    split at hq
    next h => exact h ▸ List.mem_cons_self
    next h =>
      exact List.mem_cons_of_mem _ (hs.mem_told kh' w q hw hq hannounced
        (((hholds kh').mp hheld).resolve_left h))

/-- An endpoint goes, with the slot reserved for it if there is one. -/
theorem remove (hs : s.Slots holders told) (hw : s.writer = some w) {holders' : List KeyHash}
    (hnodup : holders'.Nodup) (hmem' : ∀ kh', kh' ∈ holders' ↔ kh' ∈ holders ∧ kh' ≠ kh)
    (hroomy : cache.Roomy) (hreserved : cache.reserved = holders'.length)
    (hholds : ∀ ih, ih ≠ kh → (cache.Holds ih ↔ w.cache.Holds ih)) :
    Slots ⟨some { w with cache := cache }, s.endpoints.erase kh⟩ holders'
      (told.filter (· ≠ kh)) := by
  have hisSome : s.writer.isSome := hw ▸ Option.isSome_some
  have hlookup (kh' : KeyHash) (q : Prepared) (h : (s.endpoints.erase kh).lookup kh' = some q) :
      kh' ≠ kh ∧ s.endpoints.lookup kh' = some q := by
    rw [Table.lookup_erase_eq] at h
    split at h
    next => cases h
    next hne => exact ⟨hne, h⟩
  constructor
  case roomy =>
    rintro _ ⟨⟩
    exact ⟨hroomy, hreserved⟩
  case idle => exact fun h => nomatch h
  case slot => exact fun kh' q hq => (hs.slot kh' q (hlookup kh' q hq).2).trans hisSome
  case nodup => exact hnodup
  case mem_holders =>
    intro _ kh'
    rw [hmem', hs.mem_holders hisSome kh', Table.lookup_erase_eq, List.mem_filter,
      decide_eq_true_iff]
    split
    next h => exact iff_of_false (fun h' => h'.2 h) fun h' => nomatch h'.1
    next h => exact ⟨fun h' => ⟨h'.1.1, fun h'' => h'.1.2 h''.1⟩,
        fun h' => ⟨⟨h'.1, fun h'' => h'.2 ⟨h'', h⟩⟩, h⟩⟩
  case of_told =>
    intro kh' hkh'
    obtain ⟨hkh', hne⟩ := List.mem_filter.mp hkh'
    have hne : kh' ≠ kh := of_decide_eq_true hne
    obtain ⟨w', q, hw', hq, hannounced, hheld⟩ := hs.of_told kh' hkh'
    cases hw.symm.trans hw'
    refine ⟨_, q, rfl, ?_, hannounced, (hholds kh' hne).mpr hheld⟩
    rw [Table.lookup_erase_eq, if_neg hne, hq]
  case mem_told =>
    rintro kh' _ q ⟨⟩ hq hannounced hheld
    obtain ⟨hne, hq⟩ := hlookup kh' q hq
    exact List.mem_filter.mpr ⟨hs.mem_told kh' w q hw hq hannounced ((hholds kh' hne).mp hheld),
      decide_eq_true hne⟩

theorem mem_unreserved : kh ∈ s.unreserved ↔ ∃ p, s.endpoints.lookup kh = some p ∧ !p.slot := by
  unfold unreserved
  constructor
  · intro h
    obtain ⟨⟨_, p⟩, hmem, rfl⟩ := List.mem_map.mp h
    obtain ⟨hmem, hslot⟩ := List.mem_filter.mp hmem
    exact ⟨p, AList.mem_lookup_iff.mpr hmem, hslot⟩
  · rintro ⟨p, hlookup, hslot⟩
    exact List.mem_map.mpr ⟨⟨kh, p⟩,
      List.mem_filter.mpr ⟨AList.mem_lookup_iff.mp hlookup, hslot⟩, rfl⟩

/-- A writer is attached, with a slot reserved for each endpoint. -/
theorem attach (hs : s.Slots holders told) (hw : s.writer = none) {guid : Guid}
    {spare : Option ℕ} (hreserve : (AnnouncingWriter.init guid).cache.reserve
      s.unreserved.length spare = some cache) :
    Slots ⟨some ⟨guid, cache⟩, s.endpoints.mapValues fun p => { p with slot := true }⟩
      s.unreserved [] := by
  obtain ⟨hsame, hcount, -⟩ := ReservingCache.reserve_spec hreserve
  constructor
  case roomy =>
    rintro _ ⟨⟩
    exact ⟨ReservingCache.roomy_init.reserve hreserve, hcount.trans (Nat.zero_add _)⟩
  case idle => exact fun h => nomatch h
  case slot =>
    intro kh p hp
    rw [Table.lookup_mapValues] at hp
    obtain ⟨q, -, rfl⟩ := Option.map_eq_some_iff.mp hp
    rfl
  case nodup => exact s.endpoints.nodupKeys.sublist List.filter_sublist
  case mem_holders =>
    intro _ kh
    rw [mem_unreserved, Table.lookup_mapValues, Option.isSome_map, Option.isSome_iff_exists]
    constructor
    · rintro ⟨p, hp, -⟩
      exact ⟨⟨p, hp⟩, List.not_mem_nil⟩
    · rintro ⟨⟨p, hp⟩, -⟩
      exact ⟨p, hp, by rw [hs.slot kh p hp, hw]; rfl⟩
  case of_told => exact fun kh h => nomatch h
  case mem_told =>
    rintro kh _ p ⟨⟩ - - ⟨ch, hch, -⟩
    rw [hsame] at hch
    cases hch

theorem detach : s.detachWriter.Slots [] [] := by
  refine of_idle rfl fun kh p hp => ?_
  rw [detachWriter, Table.lookup_mapValues] at hp
  obtain ⟨q, -, rfl⟩ := Option.map_eq_some_iff.mp hp
  rfl

end Announcements.Slots

namespace AnnouncementsInUse

variable {s : AnnouncementsInUse}

/-- The flags agree with the history. -/
def Sound (s : AnnouncementsInUse) : Prop := s.Slots s.holders s.told

/-- A call goes well, and leaves flags that agree with the history. -/
def Goes (s : AnnouncementsInUse) (a : Call) : Prop :=
  ∃ t d, s.call a = some (t, d) ∧ (d.failed → t = s.toAnnouncements ∧ d = { failed := true }) ∧
    (∀ kh usesReservation, d.wrote = some (kh, usesReservation) →
      if usesReservation then kh ∈ s.holders else ∃ w, s.writer = some w ∧ w.cache.Holds kh) ∧
    (s.after a t d).Sound

variable {a : Call} {t : Announcements} {d : Done} {kh : KeyHash} {now : RtpsTimestamp}

theorem goes_of_quiet (hcall : s.call a = some (t, d)) (hfailed : d.failed = false)
    (hwrote : d.wrote = none) (hsound : (s.after a t d).Sound) : s.Goes a :=
  ⟨t, d, hcall, fun h => (nomatch hfailed.symm.trans h), fun _ _ h => (nomatch hwrote.symm.trans h),
    hsound⟩

theorem Sound.goes_of_failed (hs : s.Sound)
    (hcall : s.call a = some (s.toAnnouncements, { failed := true }))
    (hsame : (s.after a s.toAnnouncements { failed := true }) = s) : s.Goes a :=
  ⟨_, _, hcall, fun _ => ⟨rfl, rfl⟩, fun _ _ h => (nomatch h), hsame.symm ▸ hs⟩

theorem Sound.prepare (hs : s.Sound) (payload disposal : Buffer) (mapped : Bool)
    (spare : Option ℕ) : s.Goes (.prepare kh payload disposal mapped spare) := by
  have failed (h : s.prepare kh payload disposal mapped spare =
      (s.toAnnouncements, { failed := true })) :
      s.Goes (.prepare kh payload disposal mapped spare) :=
    hs.goes_of_failed (congrArg some h) (by simp only [after, List.append_nil]; rfl)
  cases hlookup : s.endpoints.lookup kh with
  | some p =>
    have hcall : s.prepare kh payload disposal mapped spare =
        (⟨s.writer, s.endpoints.insert kh { p with staged := some payload }⟩,
          { taken := [payload, disposal], freed := p.staged.toList ++ [disposal] }) := by
      rw [Announcements.prepare, hlookup]
    exact goes_of_quiet (congrArg some hcall) rfl rfl (hs.edit hlookup rfl id .inl)
  | none =>
    cases mapped with
    | false =>
      refine failed ?_
      rw [Announcements.prepare, hlookup]
      rfl
    | true =>
      cases hw : s.writer with
      | none =>
        obtain ⟨hholders, htold⟩ := hs.idle hw
        have hcall : s.prepare kh payload disposal true spare =
            (⟨none, s.endpoints.insert kh
              { payload := some payload, disposal := disposal, slot := false }⟩,
              { taken := [payload, disposal] }) := by
          rw [Announcements.prepare, hlookup, hw]
          rfl
        refine goes_of_quiet (congrArg some hcall) rfl rfl ?_
        show Slots _ s.holders s.told
        rw [hholders, htold]
        refine .of_idle rfl fun kh' q hq => ?_
        dsimp only [after] at hq
        rw [Table.lookup_insert_eq] at hq
        split at hq
        next =>
          cases hq
          rfl
        next => exact (hs.slot kh' q hq).trans (by rw [hw]; rfl)
      | some w =>
        cases hreserve : w.cache.reserve 1 spare with
        | none =>
          refine failed ?_
          rw [Announcements.prepare, hlookup, hw]
          dsimp only
          rw [if_neg (by decide), hreserve]
        | some cache =>
          have hcall : s.prepare kh payload disposal true spare =
              (⟨some { w with cache := cache }, s.endpoints.insert kh
                { payload := some payload, disposal := disposal, slot := true }⟩,
                { taken := [payload, disposal], reserved := [kh] }) := by
            rw [Announcements.prepare, hlookup, hw]
            dsimp only
            rw [if_neg (by decide), hreserve]
            rfl
          exact goes_of_quiet (congrArg some hcall) rfl rfl (hs.add hw hlookup hreserve rfl rfl)

theorem Sound.unchanged (hs : s.Sound) (hcall : s.call a = some (s.toAnnouncements, {}))
    (hholders : s.holdersAfter a {} = s.holders) (htold : s.toldAfter a {} = s.told) :
    s.Goes a := by
  refine goes_of_quiet hcall rfl rfl ?_
  show Slots _ (s.holdersAfter a {}) (s.toldAfter a {})
  rw [hholders, htold]
  exact hs

theorem Sound.adopt (hs : s.Sound) : s.Goes (.adopt kh) := by
  cases hlookup : s.endpoints.lookup kh with
  | none =>
    refine hs.unchanged (congrArg some ?_) rfl rfl
    rw [Announcements.adopt, hlookup]
  | some p =>
    cases hstaged : p.staged with
    | none =>
      refine hs.unchanged (congrArg some ?_) rfl rfl
      rw [Announcements.adopt, hlookup]
      dsimp only
      rw [hstaged]
    | some staged =>
      have hcall : s.adopt kh =
          (⟨s.writer, s.endpoints.insert kh { p with payload := some staged, staged := none }⟩,
            { freed := p.payload.toList }) := by
        rw [Announcements.adopt, hlookup]
        dsimp only
        rw [hstaged]
      exact goes_of_quiet (congrArg some hcall) rfl rfl (hs.edit hlookup rfl id .inl)

theorem Sound.abandon (hs : s.Sound) : s.Goes (.abandon kh) := by
  cases hlookup : s.endpoints.lookup kh with
  | none =>
    refine hs.unchanged (congrArg some ?_) rfl rfl
    rw [Announcements.abandon, hlookup]
  | some p =>
    have hcall : s.abandon kh = (⟨s.writer, s.endpoints.insert kh { p with staged := none }⟩,
        { freed := p.staged.toList }) := by
      rw [Announcements.abandon, hlookup]
    exact goes_of_quiet (congrArg some hcall) rfl rfl (hs.edit hlookup rfl id .inl)

/-- What an endpoint that counts as announced has in the history. -/
theorem holds_of_replaceable (h : s.Replaceable kh) {w : AnnouncingWriter}
    {p : Announcements.Prepared} (hw : s.writer = some w)
    (hlookup : s.endpoints.lookup kh = some p) (hp : p.announced) : w.cache.Holds kh := by
  rw [Replaceable, hw, hlookup] at h
  exact h hp

/-- A write that takes the slot of an endpoint not yet announced, or replaces its change. -/
theorem writeReserved_spec {w : AnnouncingWriter} (hroomy : w.cache.Roomy) (kind : ChangeKind)
    (now : RtpsTimestamp) (data : Buffer) (uses : Bool)
    (hslot : if uses then 0 < w.cache.reserved else w.cache.Holds kh) :
    ∃ cache, w.writeReserved kind now kh data uses = some { w with cache := cache } ∧
      cache.Roomy ∧ cache.reserved = w.cache.reserved - (if uses then 1 else 0) ∧
      ∀ ih, cache.Holds ih ↔ ih = kh ∨ w.cache.Holds ih := by
  obtain ⟨sn, cache, hadd, hrest⟩ := ReservingCache.addReservedWriterChange_spec hroomy kind w.guid
    now kh kh data.bytes uses hslot
  exact ⟨cache, by rw [AnnouncingWriter.writeReserved, hadd, Option.map_some], hrest⟩

/-- An endpoint not yet announced has a slot. -/
theorem Sound.mem_holders (hs : s.Sound) {w : AnnouncingWriter} {p : Announcements.Prepared}
    (hw : s.writer = some w) (hlookup : s.endpoints.lookup kh = some p)
    (hp : p.announced = false) : kh ∈ s.holders := by
  refine (Slots.mem_holders hs (hw ▸ Option.isSome_some) kh).mpr
    ⟨by rw [hlookup, Option.isSome_some], fun h => ?_⟩
  obtain ⟨_, q, _, hq, hannounced, _⟩ := hs.of_told kh h
  cases hlookup.symm.trans hq
  cases hp.symm.trans hannounced

theorem Sound.announce (hs : s.Sound) (hm : s.Meets (.announce kh now)) :
    s.Goes (.announce kh now) := by
  cases hlookup : s.endpoints.lookup kh with
  | none =>
    refine hs.unchanged ?_ rfl rfl
    rw [call, Announcements.announce, hlookup]
  | some p =>
    cases hpayload : p.payload with
    | none =>
      refine hs.unchanged ?_ rfl rfl
      rw [call, Announcements.announce, hlookup]
      dsimp only
      rw [hpayload]
    | some payload =>
      have hreplaceable : s.Replaceable kh := hm (by
        rw [hlookup, Option.bind_some, hpayload, Option.isSome_some])
      cases hw : s.writer with
      | none =>
        have hcall : s.announce kh now =
            some (⟨none, s.endpoints.insert kh { p with payload := none, announced := true }⟩,
              { freed := [payload] }) := by
          rw [Announcements.announce, hlookup]
          dsimp only
          rw [hpayload, hw]
        refine goes_of_quiet hcall rfl rfl ?_
        have hedit : Slots { s with
            endpoints := s.endpoints.insert kh { p with payload := none, announced := true } } _ _ :=
          hs.edit hlookup rfl (fun _ => rfl) fun _ => .inr hw
        rw [hw] at hedit
        exact hedit
      | some w =>
        have hlast (hp : p.announced) := holds_of_replaceable hreplaceable hw hlookup hp
        have hslot : if !p.announced then 0 < w.cache.reserved else w.cache.Holds kh := by
          cases hp : p.announced with
          | true => exact hlast hp
          | false =>
            have hmem := hs.mem_holders hw hlookup hp
            exact (hs.roomy w hw).2 ▸ List.length_pos_of_mem hmem
        obtain ⟨cache, hwrite, hroomy, hreserved, hholds⟩ :=
          writeReserved_spec (hs.roomy w hw).1 .alive now payload _ hslot
        have hcall : s.announce kh now =
            some (⟨some { w with cache := cache },
                s.endpoints.insert kh { p with payload := none, announced := true }⟩,
              { handed := [payload]
                wrote := some (kh, !p.announced)
                used := if p.announced then none else some kh }) := by
          rw [Announcements.announce, hlookup]
          dsimp only
          rw [hpayload, hw]
          dsimp only
          rw [hwrite, Option.map_some]
        refine ⟨_, _, hcall, fun h => (nomatch h), ?_, ?_⟩
        · rintro _ _ ⟨⟩
          cases hp : p.announced with
          | true => exact ⟨w, hw, hlast hp⟩
          | false => exact hs.mem_holders hw hlookup hp
        · have hwritten := hs.write hw hlookup hlast hroomy hreserved hholds
          have hholders : s.holdersAfter (.announce kh now)
              { handed := [payload]
                wrote := some (kh, !p.announced)
                used := if p.announced then none else some kh } =
              if p.announced then s.holders else s.holders.erase kh := by
            cases p.announced <;> rfl
          show Slots _ (s.holdersAfter _ _) _
          rw [hholders]
          exact hwritten

theorem Sound.retract (hs : s.Sound) (hm : s.Meets (.retract kh now)) :
    s.Goes (.retract kh now) := by
  cases hlookup : s.endpoints.lookup kh with
  | none =>
    refine hs.unchanged ?_ rfl (List.filter_eq_self.mpr fun kh' h => decide_eq_true ?_)
    · rw [call, Announcements.retract, hlookup]
    · rintro rfl
      obtain ⟨_, _, _, hq, _⟩ := hs.of_told kh' h
      cases hlookup.symm.trans hq
  | some p =>
    cases hw : s.writer with
    | none =>
      obtain ⟨hholders, htold⟩ := hs.idle hw
      have hcall : s.retract kh now = some (⟨none, s.endpoints.erase kh⟩,
          { freed := p.payload.toList ++ p.staged.toList ++ [p.disposal] }) := by
        rw [Announcements.retract, hlookup]
        dsimp only
        rw [hw]
      refine goes_of_quiet hcall rfl rfl ?_
      show Slots _ s.holders (s.told.filter (· ≠ kh))
      rw [hholders, htold]
      refine .of_idle rfl fun kh' q hq => ?_
      dsimp only [after] at hq
      rw [Table.lookup_erase_eq] at hq
      split at hq
      next => cases hq
      next => exact (hs.slot kh' q hq).trans (by rw [hw]; rfl)
    | some w =>
      obtain ⟨hroomy, hcount⟩ := hs.roomy w hw
      cases hp : p.announced with
      | true =>
        have hlast := holds_of_replaceable hm hw hlookup hp
        obtain ⟨cache, hwrite, hroomy', hreserved, hholds⟩ :=
          writeReserved_spec hroomy .notAliveDisposed now p.disposal false hlast
        have hnot : kh ∉ s.holders := fun h =>
          ((Slots.mem_holders hs (hw ▸ Option.isSome_some) kh).mp h).2
            (hs.mem_told kh w p hw hlookup hp hlast)
        have hcall : s.retract kh now =
            some (⟨some { w with cache := cache }, s.endpoints.erase kh⟩,
              { freed := p.payload.toList ++ p.staged.toList
                handed := [p.disposal]
                wrote := some (kh, false) }) := by
          rw [Announcements.retract, hlookup]
          dsimp only
          rw [hw]
          dsimp only
          rw [if_pos hp, hwrite, Option.map_some]
        refine ⟨_, _, hcall, fun h => (nomatch h), ?_, ?_⟩
        · rintro _ _ ⟨⟩
          exact ⟨w, hw, hlast⟩
        · exact hs.remove hw hs.nodup
            (fun kh' => ⟨fun h => ⟨h, fun e => hnot (e ▸ h)⟩, And.left⟩) hroomy'
            (hreserved.trans hcount) fun ih hne => (hholds ih).trans (or_iff_right hne)
      | false =>
        have hslot : p.slot := (hs.slot kh p hlookup).trans (hw ▸ Option.isSome_some)
        have hmem := hs.mem_holders hw hlookup hp
        obtain ⟨cache, hrelease, hroomy', hsame, hreserved, -⟩ :=
          ReservingCache.release_spec hroomy (hcount ▸ List.length_pos_of_mem hmem)
        have hcall : s.retract kh now =
            some (⟨some { w with cache := cache }, s.endpoints.erase kh⟩,
              { freed := p.payload.toList ++ p.staged.toList ++ [p.disposal]
                used := some kh }) := by
          rw [Announcements.retract, hlookup]
          dsimp only
          rw [hw]
          dsimp only
          rw [if_neg (by rw [hp]; decide), if_pos hslot, if_pos hslot, hrelease, Option.map_some]
        refine goes_of_quiet hcall rfl rfl (hs.remove hw (hs.nodup.erase kh)
          (fun kh' => (hs.nodup.mem_erase_iff).trans and_comm) hroomy' ?_ fun ih _ => ?_)
        · show cache.reserved = (s.holders.erase kh).length
          rw [List.length_erase_of_mem hmem, hreserved, hcount]
        · rw [ReservingCache.Holds, hsame, ReservingCache.Holds]

theorem Sound.attachWriter (hs : s.Sound) (hw : s.writer = none) (guid : Guid)
    (spare : Option ℕ) : s.Goes (.attachWriter guid spare) := by
  obtain ⟨hholders, htold⟩ := hs.idle hw
  cases hreserve : (AnnouncingWriter.init guid).cache.reserve s.unreserved.length spare with
  | none =>
    refine hs.goes_of_failed (congrArg some ?_) (by simp only [after, List.append_nil]; rfl)
    rw [Announcements.attachWriter, hreserve]
  | some cache =>
    have hcall : s.attachWriter guid spare =
        (⟨some ⟨guid, cache⟩, s.endpoints.mapValues fun p => { p with slot := true }⟩,
          { reserved := s.unreserved }) := by
      rw [Announcements.attachWriter, hreserve]
    refine goes_of_quiet (congrArg some hcall) rfl rfl ?_
    show Slots _ (s.unreserved ++ s.holders) s.told
    rw [hholders, htold, List.append_nil]
    exact hs.attach hw hreserve

theorem Sound.goes (hs : s.Sound) (hm : s.Meets a) : s.Goes a := by
  cases a with
  | prepare _ payload disposal mapped spare => exact hs.prepare payload disposal mapped spare
  | adopt _ => exact hs.adopt
  | abandon _ => exact hs.abandon
  | announce _ _ => exact hs.announce hm
  | retract _ _ => exact hs.retract hm
  | attachWriter guid spare => exact hs.attachWriter hm guid spare
  | detachWriter => exact goes_of_quiet rfl rfl rfl .detach

/-! ### Runs -/

/-- Every buffer is still prepared, freed or handed over, as often as it was taken. -/
def Accounted (s : AnnouncementsInUse) : Prop :=
  ∀ b, s.deinit.count b + s.freed.count b + s.handed.count b = s.taken.count b

theorem Accounted.after (hs : s.Accounted) (hcall : s.call a = some (t, d)) :
    (s.after a t d).Accounted := by
  intro b
  have hbefore := hs b
  have hbalanced := call_balanced b hcall
  simp only [AnnouncementsInUse.after, List.count_append]
  omega

theorem sound_of_run {as : List Call}
    (h : Run step (fun s => s.Meets) ({} : AnnouncementsInUse) as s) : s.Sound ∧ s.Accounted := by
  refine h.inv (I := fun s => s.Sound ∧ s.Accounted)
    ⟨.of_idle rfl fun kh p hp => ?hempty, fun b => rfl⟩ ?hstep
  case hempty =>
    rw [show ({} : AnnouncementsInUse).endpoints = ∅ from rfl, AList.lookup_empty] at hp
    cases hp
  case hstep =>
    intro s a s' ⟨hs, hacc⟩ hm hstep
    obtain ⟨t, d, hcall, -, -, hsound⟩ := hs.goes hm
    rw [step, hcall] at hstep
    cases hstep
    exact ⟨hsound, hacc.after hcall⟩

theorem mem_keys_iff {kh : KeyHash} {endpoints : Table KeyHash Announcements.Prepared} :
    kh ∈ endpoints.keys ↔ (endpoints.lookup kh).isSome := by
  rw [AList.lookup_isSome]
  rfl

theorem Sound.kept (hs : s.Sound) (hacc : s.Accounted) : s.Kept := by
  have hperm : ∀ w, s.writer = some w → s.holders.Perm s.untold := fun w hw => by
    refine (List.perm_ext_iff_of_nodup hs.nodup (s.endpoints.keys_nodup.filter _)).mpr fun kh => ?_
    rw [Slots.mem_holders hs (hw ▸ Option.isSome_some) kh, List.mem_filter, mem_keys_iff,
      decide_eq_true_iff]
  exact {
    counted := fun w hw => (hs.roomy w hw).2.trans (hperm w hw).length_eq
    held := hperm
    room := fun w hw => (hs.roomy w hw).1.room
    accounted := hacc }

/-- A call that writes in place of a change goes well only if there is one. -/
theorem Good.replaceable (h : s.Good a) (hwrites : ∀ w p t d, s.writer = some w →
    s.endpoints.lookup kh = some p → p.announced → s.call a = some (t, d) →
    d.wrote = some (kh, false)) : s.Replaceable kh := by
  obtain ⟨t, d, hcall, -, hwrote⟩ := h
  unfold Replaceable
  split
  next w p hw hlookup =>
    intro hp
    obtain ⟨w', hw', hholds⟩ := hwrote kh false (hwrites w p t d hw hlookup hp hcall)
    cases hw.symm.trans hw'
    exact hholds
  next => trivial

/-- Only a call that meets the condition goes well. -/
theorem Good.meets (h : s.Good a) (hcalled : s.Called a) : s.Meets a := by
  cases a with
  | prepare _ _ _ _ _ => trivial
  | adopt _ => trivial
  | abandon _ => trivial
  | announce kh now =>
    intro hpayload
    refine h.replaceable fun w p t d hw hlookup hp hcall => ?_
    rw [hlookup, Option.bind_some] at hpayload
    obtain ⟨payload, hpayload⟩ := Option.isSome_iff_exists.mp hpayload
    rw [call, Announcements.announce, hlookup] at hcall
    dsimp only at hcall
    rw [hpayload, hw] at hcall
    obtain ⟨w', -, heq⟩ := Option.map_eq_some_iff.mp hcall
    cases heq
    rw [hp]
    rfl
  | retract kh now =>
    refine h.replaceable fun w p t d hw hlookup hp hcall => ?_
    rw [call, Announcements.retract, hlookup] at hcall
    dsimp only at hcall
    rw [hw] at hcall
    dsimp only at hcall
    rw [if_pos hp] at hcall
    obtain ⟨w', -, heq⟩ := Option.map_eq_some_iff.mp hcall
    cases heq
    rfl
  | attachWriter _ _ => exact hcalled
  | detachWriter => trivial

/-- **Announcements do not fail for lack of a slot** while no endpoint announced without a writer
is announced again or retracted under the next one, and only then. -/
theorem slots_suffice {as : List Call}
    (h : Run step (fun s => s.Meets) ({} : AnnouncementsInUse) as s) :
    s.Kept ∧ ∀ a, s.Called a → (s.Good a ↔ s.Meets a) := by
  obtain ⟨hs, hacc⟩ := sound_of_run h
  refine ⟨hs.kept hacc, fun a hcalled => ⟨fun hg => hg.meets hcalled, fun hm => ?_⟩⟩
  obtain ⟨t, d, hcall, hfailed, hwrote, -⟩ := hs.goes hm
  exact ⟨t, d, hcall, hfailed, hwrote⟩

/-- An endpoint of these runs. -/
def anEndpoint : KeyHash := Bytes.zeroes 16

def aWriter : Guid where
  guidPrefix := Bytes.zeroes 12
  entityId := ⟨Bytes.zeroes 3, 0xc2⟩

/-- An endpoint is prepared, announced to a writer, staged anew and retracted. -/
theorem slots_suffice_retracted : ∃ s, Run step (fun s => s.Meets) ({} : AnnouncementsInUse)
    [.prepare anEndpoint ⟨1, [1]⟩ ⟨2, [2]⟩ true none, .attachWriter aWriter (some 0),
      .announce anEndpoint ⟨0, 0⟩, .prepare anEndpoint ⟨3, [3]⟩ ⟨4, [4]⟩ false none,
      .retract anEndpoint ⟨0, 0⟩] s ∧ s.Kept ∧ s.freed.length = 2 := by
  obtain ⟨s, hrun, hfreed⟩ := exists_run_of_exec step (fun s => s.Meets) ({} : AnnouncementsInUse)
    [.prepare anEndpoint ⟨1, [1]⟩ ⟨2, [2]⟩ true none, .attachWriter aWriter (some 0),
      .announce anEndpoint ⟨0, 0⟩, .prepare anEndpoint ⟨3, [3]⟩ ⟨4, [4]⟩ false none,
      .retract anEndpoint ⟨0, 0⟩] (p := fun s => s.freed.length = 2) ⟨_, rfl, rfl⟩
  exact ⟨s, hrun, (slots_suffice hrun).1, hfreed⟩

/-- An endpoint announced before there was a writer is retracted under one: its disposal takes no
slot and replaces nothing, and the slot reserved for the endpoint is lost. -/
theorem not_slots_suffice : ¬ ∀ as s,
    Run step (fun s => s.Called) ({} : AnnouncementsInUse) as s →
      s.Kept ∧ ∀ a, s.Called a → s.Good a := by
  intro h
  obtain ⟨s, hrun, hreserved, huntold⟩ := exists_run_of_exec step (fun s => s.Called)
    ({} : AnnouncementsInUse)
    [.prepare anEndpoint ⟨1, [1]⟩ ⟨2, [2]⟩ true none, .announce anEndpoint ⟨0, 0⟩,
      .attachWriter aWriter (some 0), .retract anEndpoint ⟨0, 0⟩]
    (p := fun s => s.writer.map (·.cache.reserved) = some 1 ∧ s.untold = []) ⟨_, rfl, rfl, rfl⟩
  obtain ⟨w, hw, hone⟩ := Option.map_eq_some_iff.mp hreserved
  have hcounted := (h _ s hrun).1.counted w hw
  rw [hone, huntold] at hcounted
  cases hcounted

end AnnouncementsInUse

end Zzdds.Discovery
