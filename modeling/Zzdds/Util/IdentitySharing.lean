import Zzdds.Util.IdentityLedger

/-! # Listener identities are shared, and freed once

Every run of the threads that use a registry. -/

namespace Zzdds.Util

open Lib Trapping

namespace RegistryThreads

/-- The references to a record: those that callers have, and those of calls under way. -/
def uses (t : RegistryThreads) (id : ℕ) : ℕ :=
  t.shared.references.count id + tally roles t.frames (.ref id)

/-- The step leaves fewer than 2^32 references to each record. -/
def Fits (t : RegistryThreads) (a : RegistryAction) : Prop :=
  ∀ t' ∈ step t a, ∀ id ∈ List.range t'.shared.records.length, uses t' id < u32

instance (t : RegistryThreads) (a : RegistryAction) : Decidable (Fits t a) := by
  unfold Fits
  infer_instance

def RegistryRun : List RegistryAction → RegistryThreads → Prop := Run step Fits ⟨{}, []⟩

structure Sound (g : Registry) (fs : Multiset IdentityFrame) : Prop where
  ledger : Ledger (g.records.map Identity.core) g.map g.locked
    (also (g.references.map .ref) (tally roles fs))
  backed : ∀ id r, g.records[id]? = some r → r.needs ≤ g.references.count id
  fair : ∀ id (r : Identity), g.records[id]? = some r →
    r.Fair fun ticket => tally roles fs (.granting id ticket)
  grants : ∀ id ticket, g.records.length ≤ id → tally roles fs (.granting id ticket) = 0

section Step

variable {g g' : Registry} {fs rest : Multiset IdentityFrame} {f : IdentityFrame}
  {new : List IdentityFrame} {choice : Bool} {id : ℕ} {r r' : Identity}

theorem also_refs (l : List ℕ) (n : IdentityRole → ℕ) (id : ℕ) :
    also (l.map .ref) n (.ref id) = l.count id + n (.ref id) := by
  rw [also, List.count_map_of_injective _ _ fun a b h => IdentityRole.ref.inj h]

theorem Sound.run (h : Sound g (f ::ₘ rest)) (hrun : g.run choice f = some (g', new))
    (hsmall : ∀ id, id < g'.records.length →
      g'.references.count id + tally roles (↑new + rest) (.ref id) < u32) :
    Sound g' (↑new + rest) := by
  have hledger := h.ledger
  rw [tally_cons_eq_also, also_comm] at hledger
  have hledger' := Registry.run_ledger hledger (g.exclusive rest) hrun fun id hid => by
    rw [also_comm, ← tally_add_eq_also, also_refs]
    exact hsmall id hid
  rw [also_comm, ← tally_add_eq_also] at hledger'
  by_cases hgrant : ∃ id ticket, f = .grant id ticket
  · obtain ⟨id, ticket, rfl⟩ := hgrant
    cases hrun
    have htally (i ticket' : ℕ) : tally roles (.grant id ticket ::ₘ rest) (.granting i ticket') =
        (if id = i ∧ ticket = ticket' then 1 else 0) + tally roles rest (.granting i ticket') := by
      rw [tally_cons_eq_also, roles, also_cons, also_nil]
      simp only [IdentityRole.granting.injEq]
    have hrest : (↑([] : List IdentityFrame) + rest) = rest := Multiset.zero_add rest
    rw [hrest] at hledger' ⊢
    have hcases {i : ℕ} {x : Identity}
        (hx : (g.records.modify id fun r => { r with granted := r.granted ++ [ticket] })[i]? =
          some x) : ∃ r, g.records[i]? = some r ∧
            x = if id = i then { r with granted := r.granted ++ [ticket] } else r := by
      rw [List.getElem?_modify] at hx
      obtain ⟨r, hr, rfl⟩ := Option.map_eq_some_iff.mp hx
      refine ⟨r, hr, ?_⟩
      split_ifs <;> rfl
    refine ⟨hledger', fun i x hx => ?_, fun i x hx => ?_, fun i ticket' hi => ?_⟩
    · obtain ⟨r, hr, rfl⟩ := hcases hx
      have hback := h.backed i r hr
      split_ifs
      · exact hback
      · exact hback
    · obtain ⟨r, hr, rfl⟩ := hcases hx
      have hfair := h.fair i r hr
      split_ifs with hi
      · refine hfair.grant fun ticket' => ?_
        rw [htally]
        simp only [hi, true_and]
      · refine (funext fun ticket' => ?_ : (fun ticket' => tally roles rest (.granting i ticket')) =
          fun ticket' => tally roles (.grant id ticket ::ₘ rest) (.granting i ticket')) ▸ hfair
        rw [htally, if_neg fun h => hi h.1, Nat.zero_add]
    · have hnone := h.grants i ticket' (List.length_modify .. ▸ hi)
      rw [htally] at hnone
      omega
  · have hf (id ticket : ℕ) : f ≠ .grant id ticket := fun heq => hgrant ⟨id, ticket, heq⟩
    obtain ⟨⟨hlength, hrecords⟩, ⟨more, hmore⟩, hnew⟩ := Registry.run_recounted hf hrun
    have htally (i ticket : ℕ) : tally roles (↑new + rest) (.granting i ticket) =
        tally roles (f ::ₘ rest) (.granting i ticket) := by
      have hnone : (roles f).count (.granting i ticket) = 0 := by
        cases f with
        | grant id' ticket' => exact absurd rfl (hf id' ticket')
        | unlock j got => cases got <;> simp [roles]
        | _ => simp [roles]
      rw [tally_add_eq_also, tally_cons_eq_also, also, also, hnew, hnone]
    refine ⟨hledger', fun i x hx => ?_, fun i x hx => ?_, fun i ticket hi => ?_⟩
    · rw [hmore, List.count_append]
      obtain ⟨r, refs, freed, hr, rfl⟩ | ⟨-, key, rfl⟩ := hrecords i x hx
      · exact (h.backed i r hr).trans (Nat.le_add_right _ _)
      · exact Nat.zero_le _
    · simp only [htally]
      obtain ⟨r, refs, freed, hr, rfl⟩ | ⟨hi, key, rfl⟩ := hrecords i x hx
      · exact (h.fair i r hr).recount refs freed
      · exact .fresh key fun ticket => h.grants i ticket hi
    · rw [htally]
      exact h.grants i ticket (hlength.trans hi)

theorem also_perm {l₁ l₂ : List IdentityRole} (h : l₁.Perm l₂) (n : IdentityRole → ℕ) :
    also l₁ n = also l₂ n := by
  funext ρ
  rw [also, also, h.count_eq]

theorem cores_put (hr : g.alive id = some r) (hcore : r'.core = r.core) :
    (g.put id r').records.map Identity.core = g.records.map Identity.core := by
  have hget := Registry.core_of_alive hr
  rw [Registry.map_core_set, hcore]
  refine List.ext_getElem? fun i => ?_
  rw [List.getElem?_set]
  split_ifs with hi hlt
  · rw [← hi, hget]
  · exact absurd (List.getElem?_eq_some_iff.mp (hi ▸ hget)).1 (hi ▸ hlt)
  · rfl

/-- The right of one record is used. -/
theorem Sound.put (h : Sound g fs) {fs' : Multiset IdentityFrame} (hr : g.alive id = some r)
    (hcore : r'.core = r.core) (hneeds : r'.needs ≤ g.references.count id)
    (hledger : Ledger (g.records.map Identity.core) g.map g.locked
      (also (g.references.map .ref) (tally roles fs')))
    (hother : ∀ i ticket, i ≠ id →
      tally roles fs' (.granting i ticket) = tally roles fs (.granting i ticket))
    (hfair : r'.Fair fun ticket => tally roles fs' (.granting id ticket)) :
    Sound (g.put id r') fs' := by
  obtain ⟨hget, -⟩ := Registry.of_alive hr
  obtain ⟨hlt, -⟩ := List.getElem?_eq_some_iff.mp hget
  refine ⟨cores_put hr hcore ▸ hledger, fun i x hx => ?_, fun i x hx => ?_, fun i ticket hi => ?_⟩
  · rw [Registry.getElem?_put hget] at hx
    split_ifs at hx with hi
    · cases hx
      exact hi ▸ hneeds
    · exact h.backed i x hx
  · rw [Registry.getElem?_put hget] at hx
    split_ifs at hx with hi
    · cases hx
      exact hi ▸ hfair
    · simp only [hother i _ hi]
      exact h.fair i x hx
  · have hi : g.records.length ≤ i := g.length_put id r' ▸ hi
    rw [hother i ticket (by omega)]
    exact h.grants i ticket hi

/-- References are counted by whoever has them. -/
theorem Sound.refer (h : Sound g fs) {references : List ℕ} {fs' : Multiset IdentityFrame}
    (hrefs : also (references.map .ref) (tally roles fs') =
      also (g.references.map .ref) (tally roles fs))
    (hgrants : ∀ id ticket, tally roles fs' (.granting id ticket) =
      tally roles fs (.granting id ticket))
    (hbacked : ∀ id r, g.records[id]? = some r → r.needs ≤ references.count id) :
    Sound { g with references := references } fs' := by
  refine ⟨hrefs ▸ h.ledger, hbacked, fun i x hx => ?_, fun i ticket hi => ?_⟩
  · simp only [hgrants]
    exact h.fair i x hx
  · rw [hgrants]
    exact h.grants i ticket hi

theorem Sound.share (h : Sound g fs) (hr : g.alive id = some r) (hmem : id ∈ g.references)
    (hsmall : (g.references ++ [id]).count id + tally roles fs (.ref id) < u32) :
    Sound { g.put id r.retain with references := g.references ++ [id] } fs := by
  have hget := (Registry.of_alive hr).1
  have hshare := h.ledger.share (Registry.core_of_alive hr) (by
    rw [also_refs]
    exact Nat.add_pos_left (List.count_pos_iff.mpr hmem) _) (by
    rw [also_cons, if_pos rfl, also_nil, also_refs]
    rw [List.count_append, List.count_singleton_self] at hsmall
    omega)
  refine ⟨?_, fun i x hx => ?_, fun i x hx => ?_, fun i ticket hi => ?_⟩
  · rw [List.map_append, also_append, also_comm]
    exact Registry.map_core_set r.retain ▸ hshare
  · have hx := (Registry.getElem?_put hget i).symm.trans hx
    rw [List.count_append]
    split_ifs at hx with hi
    · cases hx
      subst hi
      exact (h.backed i r hget).trans (Nat.le_add_right _ _)
    · exact (h.backed i x hx).trans (Nat.le_add_right _ _)
  · have hx := (Registry.getElem?_put hget i).symm.trans hx
    split_ifs at hx with hi
    · cases hx
      subst hi
      exact (h.fair i r hget).recount _ r.freed
    · exact h.fair i x hx
  · exact h.grants i ticket (g.length_put id r.retain ▸ hi)

theorem Sound.releaseRight (h : Sound g fs) (hr : g.alive id = some r)
    (hdone : r.granted = r.passed) {got : Option ℕ} (hs : r.releaseRight = some (r', got)) :
    Sound (g.put id r') (↑(got.map (IdentityFrame.grant id)).toList + fs) := by
  have hget := (Registry.of_alive hr).1
  have hroles : (got.map (IdentityFrame.grant id)).toList.flatMap roles =
      (got.map (IdentityRole.granting id)).toList := by
    cases got with
    | none => rfl
    | some ticket => rfl
  have htally (i ticket : ℕ) :
      tally roles (↑(got.map (IdentityFrame.grant id)).toList + fs) (.granting i ticket) =
        (if id = i ∧ got = some ticket then 1 else 0) + tally roles fs (.granting i ticket) := by
    rw [tally_add_eq_also, hroles]
    cases got with
    | none => simp [also]
    | some last =>
      rw [Option.map_some, Option.toList_some, also_cons, also_nil]
      simp only [IdentityRole.granting.injEq, Option.some.injEq]
  have hneeds : r'.core = r.core ∧ r'.needs ≤ r.needs := by
    unfold Identity.releaseRight at hs
    split_ifs at hs with hheld
    split at hs
    next hqueue =>
      cases hs
      exact ⟨rfl, Nat.add_le_add_left (Nat.zero_le _) _⟩
    next w queue hqueue =>
      cases hs
      refine ⟨rfl, Nat.add_le_add_right ?_ _⟩
      rw [hqueue]
      exact Nat.le_succ _
  refine h.put hr hneeds.1 (hneeds.2.trans (h.backed id r hget)) ?_ (fun i ticket hi => ?_)
    ((h.fair id r hget).releaseRight hdone hs fun ticket => ?_)
  · rw [tally_add_eq_also, hroles]
    cases got with
    | none =>
      rw [Option.map_none, Option.toList_none, also_nil]
      exact h.ledger
    | some ticket =>
      rw [also_comm]
      exact Ledger.grant_iff.mpr h.ledger
  · rw [htally, if_neg fun heq => hi heq.1.symm, Nat.zero_add]
  · rw [htally]
    simp only [true_and]

theorem Sound.step {t t' : RegistryThreads} {a : RegistryAction} (h : Sound t.shared t.frames)
    (hok : Fits t a) (hs : t.step a = some t') : Sound t'.shared t'.frames := by
  have hfits := hok t' hs
  cases a with
  | retain key =>
    cases hs
    rw [Threads.spawn_frames, Threads.spawn_shared]
    have htally : tally roles (↑[IdentityFrame.retain key] + t.frames) = tally roles t.frames := by
      rw [tally_add_eq_also, List.flatMap_singleton, roles, also_nil]
    exact h.refer (congrArg _ htally) (fun id ticket => congrFun htally _) h.backed
  | share id =>
    rw [RegistryThreads.step.eq_def] at hs
    dsimp only at hs
    split_ifs at hs with hmem
    obtain ⟨r, hr, rfl⟩ := Option.map_eq_some_iff.mp hs
    refine h.share hr hmem ?_
    have hlt := (List.getElem?_eq_some_iff.mp (Registry.of_alive hr).1).1
    exact hfits id (List.mem_range.mpr ((t.shared.length_put id r.retain).symm ▸ hlt))
  | release id =>
    rw [RegistryThreads.step.eq_def] at hs
    dsimp only at hs
    split_ifs at hs with hspare
    cases hs
    rw [Threads.spawn_frames, Threads.spawn_shared]
    obtain ⟨r, hr, hneeds⟩ := hspare
    have hmem : id ∈ t.shared.references := List.count_pos_iff.mp (Nat.zero_lt_of_lt hneeds)
    refine h.refer ?_ (fun i ticket => ?_) fun i x hx => ?_
    · have hperm : ((t.shared.references.erase id).map IdentityRole.ref ++
          [IdentityRole.ref id]).Perm (t.shared.references.map .ref) := by
        refine List.perm_append_comm.trans ?_
        exact ((List.perm_cons_erase hmem).map IdentityRole.ref).symm
      rw [tally_add_eq_also, ← also_append]
      exact also_perm hperm _
    · rw [tally_add_eq_also]
      simp [also, roles]
    · have hback := h.backed i x hx
      by_cases hi : i = id
      · subst hi
        cases Option.some.inj ((Registry.of_alive hr).1.symm.trans hx)
        rw [List.count_erase_self]
        omega
      · rw [List.count_erase_of_ne hi]
        exact hback
  | tryAcquire id w =>
    rw [RegistryThreads.step.eq_def] at hs
    dsimp only at hs
    split_ifs at hs with hspare
    obtain ⟨r, hr, rfl⟩ := Option.map_eq_some_iff.mp hs
    obtain ⟨r', hr', hneeds⟩ := hspare.1
    cases Option.some.inj (hr.symm.trans hr')
    exact h.put hr (r.tryAcquire_counts w).1 ((r.tryAcquire_counts w).2.trans hneeds) h.ledger
      (fun _ _ _ => rfl) ((h.fair id r (Registry.of_alive hr).1).tryAcquire w)
  | tryTake id =>
    rw [RegistryThreads.step.eq_def] at hs
    dsimp only at hs
    split_ifs at hs with hspare
    obtain ⟨r, hr, rfl⟩ := Option.map_eq_some_iff.mp hs
    obtain ⟨r', hr', hneeds⟩ := hspare
    cases Option.some.inj (hr.symm.trans hr')
    exact h.put hr r.tryTake_counts.1 (r.tryTake_counts.2.trans hneeds) h.ledger
      (fun _ _ _ => rfl) (h.fair id r (Registry.of_alive hr).1).tryTake
  | releaseRight id =>
    obtain ⟨r, hr, hs⟩ := Option.bind_eq_some_iff.mp hs
    split_ifs at hs with hdone
    obtain ⟨⟨r', got⟩, hright, rfl⟩ := Option.map_eq_some_iff.mp hs
    rw [Threads.spawn_frames, Threads.spawn_shared]
    exact h.releaseRight hr hdone.2 hright
  | cancel id w =>
    rw [RegistryThreads.step.eq_def] at hs
    dsimp only at hs
    split_ifs at hs with hmem
    obtain ⟨r, hr, rfl⟩ := Option.map_eq_some_iff.mp hs
    have hget := (Registry.of_alive hr).1
    exact h.put hr (r.cancel_counts w).1 ((r.cancel_counts w).2.trans (h.backed id r hget))
      h.ledger (fun _ _ _ => rfl) ((h.fair id r hget).cancel w)
  | turn i choice =>
    obtain ⟨f, new, rest, -, hframes, hrun, hframes'⟩ := Threads.turn_frames hs
    rw [hframes] at h
    rw [hframes']
    refine h.run hrun fun id hid => ?_
    have hlt := hfits id (List.mem_range.mpr hid)
    rw [uses, hframes'] at hlt
    exact hlt

/-- What has a reference, or is about to be freed, was not freed. -/
theorem Sound.alive (h : Sound g fs)
    (hpos : 0 < also (g.references.map .ref) (tally roles fs) (.ref id) ∨
      0 < also (g.references.map .ref) (tally roles fs) (.gone id)) :
    ∃ r, g.alive id = some r := by
  have hlt : id < g.records.length := by
    by_contra hge
    have hknown := h.ledger.known id (by rw [List.length_map]; omega)
    omega
  have hget := List.getElem?_eq_getElem hlt
  have hfreed := h.ledger.freed id _ (by rw [List.getElem?_map, hget]; rfl)
  refine ⟨g.records[id], ?_⟩
  rw [Registry.alive, hget, Option.bind_some, if_pos]
  have hcore : g.records[id].core.freed = g.records[id].freed := rfl
  split_ifs at hfreed <;> omega

/-- A step that waits for the lock of a stripe. -/
def Waits (g : Registry) : IdentityFrame → Prop
  | .retain key => g.locked (stripe key) = true
  | .drop id _ => ∃ r ∈ g.records[id]?, g.locked (stripe r.key) = true
  | _ => False

/-- Nothing else stops a thread. -/
theorem Sound.waits (h : Sound g (f ::ₘ rest)) (hnone : g.run choice f = none) : Waits g f := by
  have hseat : also (g.references.map .ref) (tally roles (f ::ₘ rest)) =
      also (roles f) (also (g.references.map .ref) (tally roles rest)) := by
    rw [tally_cons_eq_also, also_comm]
  have halive (id : ℕ) (hmem : .ref id ∈ roles f ∨ .gone id ∈ roles f) :
      ∃ r, g.alive id = some r := by
    refine h.alive (hmem.imp (fun hmem => ?_) fun hmem => ?_)
    · rw [hseat]
      exact Nat.add_pos_left (List.count_pos_iff.mpr hmem) _
    · rw [hseat]
      exact Nat.add_pos_left (List.count_pos_iff.mpr hmem) _
  cases f with
  | retain key =>
    rw [Registry.run.eq_def] at hnone
    dsimp only at hnone
    split_ifs at hnone with hkind hlocked
    exact hlocked
  | lookup key =>
    rw [Registry.run.eq_def] at hnone
    dsimp only at hnone
    split at hnone
    · cases hnone
    · split_ifs at hnone
  | revive key id =>
    have hpos := (h.ledger.reviving key id (by
      rw [hseat, roles, also_cons, also_cons, if_pos rfl]
      omega)).2
    obtain ⟨r, hr⟩ := h.alive (.inl hpos)
    rw [Registry.run, hr] at hnone
    cases hnone
  | unlock j got => cases hnone
  | release id =>
    obtain ⟨r, hr⟩ := halive id (.inl List.mem_cons_self)
    rw [Registry.run, hr] at hnone
    cases hnone
  | drop id m =>
    obtain ⟨r, hr⟩ := halive id (.inl List.mem_cons_self)
    rw [Registry.run, hr, Option.bind_some] at hnone
    split_ifs at hnone with hone hlocked
    exact ⟨r, (Registry.of_alive hr).1, hlocked⟩
  | last j id =>
    obtain ⟨r, hr⟩ := halive id (.inl List.mem_cons_self)
    rw [Registry.run, hr] at hnone
    cases hnone
  | remove j id =>
    obtain ⟨r, hr⟩ := halive id (.inr List.mem_cons_self)
    rw [Registry.run, hr] at hnone
    cases hnone
  | destroy id =>
    obtain ⟨r, hr⟩ := halive id (.inr List.mem_cons_self)
    have hfreed := h.ledger.freed id _ (Registry.core_of_alive hr)
    have hrefs : also (g.references.map .ref) (tally roles rest) (.ref id) = 0 := by
      simp only [hseat, roles, also_cons, also_nil, reduceCtorEq, if_false, if_true,
        Nat.zero_add] at hfreed
      split_ifs at hfreed with hzero
      · exact hzero
      · omega
    rw [also_refs] at hrefs
    have hneeds := h.backed id r (Registry.of_alive hr).1
    have hnot : ¬ (r.held = true ∨ r.queue ≠ []) := by
      rintro (hheld | hqueue)
      · rw [Identity.needs, if_pos hheld] at hneeds
        omega
      · have := List.length_pos_iff.mpr hqueue
        rw [Identity.needs] at hneeds
        omega
    rw [Registry.run, hr, Option.bind_some, if_neg hnot] at hnone
    cases hnone
  | grant id ticket => cases hnone

end Step

section Run

variable {t : RegistryThreads} {as : List RegistryAction}

theorem init_sound : Sound {} 0 where
  ledger :=
    { refs := fun _ _ hc => nomatch hc
      freed := fun _ _ hc => nomatch hc
      known := fun _ _ => ⟨rfl, rfl⟩
      mapped := fun _ _ hc => nomatch hc
      table := fun _ _ hmap => nomatch hmap
      lock := fun _ => rfl
      looking := fun _ hpos => absurd hpos (lt_irrefl 0)
      reviving := fun _ _ hpos => absurd hpos (lt_irrefl 0)
      dropping := fun _ hpos => absurd hpos (lt_irrefl 0)
      lasting := fun _ _ hpos => hpos.elim (absurd · (lt_irrefl 0)) (absurd · (lt_irrefl 0))
      removing := fun _ _ _ _ hc => nomatch hc }
  backed _ _ hr := nomatch hr
  fair _ _ hr := nomatch hr
  grants _ _ _ := rfl

theorem run_sound (h : RegistryRun as t) : Sound t.shared t.frames :=
  Run.inv (I := fun t => Sound t.shared t.frames) h init_sound
    fun _ _ _ hsound hok hs => hsound.step hok hs

/-- **A record is shared by its key and freed once, and its right passes in order.** Of the records
of a key at most one has references; without, a record is freed or is about to be, and that once;
what a lookup finds is of the key; a thread is stopped by nothing but a lock. -/
theorem shared_and_freed_once (h : RegistryRun as t) :
    (∀ i j r x, t.shared.records[i]? = some r → t.shared.records[j]? = some x → r.key = x.key →
      r.key.kind = .context → 0 < t.uses i → 0 < t.uses j → i = j) ∧
    (∀ id, 0 < t.uses id → ∃ r, t.shared.records[id]? = some r ∧ r.freed = 0) ∧
    (∀ id r, t.shared.records[id]? = some r → r.freed ≤ 1 ∧ (t.uses id = 0 → r.freed = 0 →
      ∃ f ∈ t.frames, f = .destroy id ∨ ∃ j, f = .remove j id)) ∧
    (∀ key id, .revive key id ∈ t.frames →
      ∃ r, t.shared.records[id]? = some r ∧ r.key = key ∧ 0 < t.uses id) ∧
    (∀ id (r : Identity), t.shared.records[id]? = some r →
      (r.passed ++ r.tickets).Pairwise (· < ·) ∧
      (r.passed ++ r.tickets ++ r.cancelled).Perm (List.range r.arrivals) ∧
      (r.passed = r.granted ∨
        ∃ ticket, r.passed = r.granted ++ [ticket] ∧ .grant id ticket ∈ t.frames)) ∧
    ∀ i choice f, t.next i = some f → t.step (.turn i choice) = none → Waits t.shared f := by
  have h := run_sound h
  have huses (id : ℕ) :
      also (t.shared.references.map .ref) (tally roles t.frames) (.ref id) = t.uses id :=
    also_refs _ _ _
  have hcore {id : ℕ} {r : Identity} (hr : t.shared.records[id]? = some r) :
      (t.shared.records.map Identity.core)[id]? = some r.core := by
    rw [List.getElem?_map, hr, Option.map_some]
  refine ⟨fun i j r x hr hx hkey hkind hi hj => ?_, fun id hid => ?_, fun id r hr => ⟨?_, ?_⟩,
    fun key id hmem => ?_, fun id r hr => ?_, fun i choice f hf hnone => ?_⟩
  · have hmap := h.ledger.mapped i _ (hcore hr) hkind (huses i ▸ hi)
    have hmap' := h.ledger.mapped j _ (hcore hx) ((congrArg Key.kind hkey).symm.trans hkind)
      (huses j ▸ hj)
    rw [show x.core.key = r.core.key from hkey.symm, hmap] at hmap'
    exact Option.some.inj hmap'
  · obtain ⟨r, hr⟩ := h.alive (.inl (huses id ▸ hid))
    exact ⟨r, Registry.of_alive hr⟩
  · have hfreed := h.ledger.freed id _ (hcore hr)
    have heq : r.core.freed = r.freed := rfl
    split_ifs at hfreed <;> omega
  · intro hzero hfreed
    have hgone := h.ledger.freed id _ (hcore hr)
    rw [huses, if_pos hzero, show r.core.freed = 0 from hfreed, also, List.count_eq_zero.mpr
      (by simp), Nat.zero_add, Nat.zero_add] at hgone
    obtain ⟨f, hf, hrole⟩ := (tally_ne_zero roles).mp (hgone.trans_ne Nat.one_ne_zero)
    refine ⟨f, hf, ?_⟩
    cases f with
    | destroy i =>
      cases List.mem_singleton.mp hrole
      exact .inl rfl
    | remove j i =>
      simp only [roles, List.mem_cons, IdentityRole.gone.injEq, reduceCtorEq, List.not_mem_nil,
        or_false] at hrole
      exact .inr ⟨j, hrole ▸ rfl⟩
    | unlock j got => cases got <;> simp [roles] at hrole
    | _ => simp [roles] at hrole
  · have hpos : 0 < also (t.shared.references.map .ref) (tally roles t.frames)
        (.reviving key id) :=
      Nat.add_pos_right _ (Nat.pos_of_ne_zero ((tally_ne_zero roles).mpr
        ⟨_, hmem, List.mem_cons_of_mem _ List.mem_cons_self⟩))
    obtain ⟨hmap, huse⟩ := h.ledger.reviving key id hpos
    obtain ⟨c, hc, hkey, -⟩ := h.ledger.table key id hmap
    rw [List.getElem?_map] at hc
    obtain ⟨r, hr, rfl⟩ := Option.map_eq_some_iff.mp hc
    exact ⟨r, hr, hkey, huses id ▸ huse⟩
  · have hfair := h.fair id r hr
    refine ⟨hfair.order, hfair.once, hfair.granted.imp (fun hdone => hdone.1) ?_⟩
    rintro ⟨ticket, hpassed, -, hgranting⟩
    refine ⟨ticket, hpassed, ?_⟩
    have hone := hgranting ticket
    rw [if_pos rfl] at hone
    obtain ⟨f, hf, hrole⟩ := (tally_ne_zero roles).mp (hone.trans_ne Nat.one_ne_zero)
    cases f with
    | grant i last =>
      cases List.mem_singleton.mp hrole
      exact hf
    | unlock j got => cases got <;> simp [roles] at hrole
    | _ => simp [roles] at hrole
  · obtain ⟨rest, hrest⟩ := Multiset.exists_cons_of_mem (Threads.mem_of_next hf)
    exact (hrest ▸ h).waits (Threads.run_of_turn_eq_none hf hnone)

/-- Two wait for the right, one of them gives up, and the other is passed it. -/
def handedOver : List RegistryAction :=
  [.retain ⟨4096, .context⟩, .turn 0 true, .turn 0 true, .turn 0 true, .share 0, .share 0, .share 0,
    .tryAcquire 0 10, .tryAcquire 0 11, .tryAcquire 0 12, .cancel 0 11, .releaseRight 0,
    .turn 1 true]

theorem shared_and_freed_once_handedOver : ∃ t, RegistryRun handedOver t ∧ t.uses 0 = 4 ∧
    (∃ r, t.shared.records[0]? = some r ∧ r.passed = [1] ∧ r.granted = [1] ∧ r.cancelled = [0]) ∧
    ∃ r, t.shared.records[0]? = some r ∧ r.freed = 0 := by
  obtain ⟨t, hrun, huses, hright⟩ := exists_run_of_exec step Fits ⟨{}, []⟩ handedOver
    (p := fun t => t.uses 0 = 4 ∧ ∃ r, t.shared.records[0]? = some r ∧ r.passed = [1] ∧
      r.granted = [1] ∧ r.cancelled = [0]) ⟨_, rfl, rfl, _, rfl, rfl, rfl, rfl⟩
  exact ⟨t, hrun, huses, hright, (shared_and_freed_once hrun).2.1 0 (huses ▸ by decide)⟩

/-- A key is looked up while its old record is about to be freed. -/
def between : List RegistryAction :=
  [.retain ⟨4096, .context⟩, .turn 0 true, .turn 0 true, .turn 0 true, .release 0, .turn 1 false,
    .turn 1 false, .turn 1 false, .turn 1 false, .turn 1 false, .retain ⟨4096, .context⟩,
    .turn 2 true, .turn 2 true]

/-- One record and one thread, which has finished. -/
def oneRecord (refs : ℕ) (references : List ℕ) : RegistryThreads :=
  ⟨{ records := [{ key := ⟨4096, .context⟩, refs := refs }]
     locked := Function.update (Function.update (fun _ => false) 0 true) 0 false
     map := Function.update (fun _ => none) ⟨4096, .context⟩ (some 0)
     references := references }, [[]]⟩

theorem run_share (n : ℕ) : Run step (fun _ _ => True) (oneRecord 1 [0])
    (List.replicate n (.share 0)) (oneRecord ((1 + n) % u32) ([0] ++ List.replicate n 0)) := by
  induction n with
  | zero => exact .nil
  | succ n ih =>
    rw [List.replicate_succ' (a := RegistryAction.share 0)]
    refine ih.snoc trivial ?_
    have hmem : 0 ∈ (oneRecord ((1 + n) % u32) ([0] ++ List.replicate n 0)).shared.references :=
      List.mem_append_left _ List.mem_cons_self
    rw [step, if_pos hmem, List.replicate_succ', ← List.append_assoc]
    have hrefs : ((1 + n) % u32 + 1) % u32 = (1 + (n + 1)) % u32 := by
      rw [Nat.mod_add_mod, Nat.add_assoc]
    exact congrArg (fun refs => some (oneRecord refs _)) hrefs

/-- A record that counts one reference goes with the first of two. -/
theorem run_freed (references : List ℕ) (hpos : 1 < references.count 0) :
    ∃ as t, Run step (fun _ _ => True) (oneRecord 1 references) as t ∧
      (∃ r, t.shared.records[0]? = some r ∧ r.freed = 1) ∧ 0 ∈ t.shared.references := by
  have hspare : Spare (oneRecord 1 references).shared 0 := ⟨_, rfl, Nat.zero_lt_of_lt hpos⟩
  have hrelease : Run step (fun _ _ => True) (oneRecord 1 references) [.release 0] _ :=
    Run.single trivial (show step (oneRecord 1 references) (.release 0) = _ from if_pos hspare)
  obtain ⟨t, hrun, hfreed, hreferences⟩ := exists_run_of_exec step (fun _ _ => True)
    ((oneRecord 1 references).spawn { (oneRecord 1 references).shared with
      references := references.erase 0 } [.release 0])
    [.turn 1 false, .turn 1 false, .turn 1 false, .turn 1 false, .turn 1 false, .turn 1 false]
    (p := fun t => (∃ r, t.shared.records[0]? = some r ∧ r.freed = 1) ∧
      t.shared.references = references.erase 0 ++ []) ⟨_, rfl, ⟨_, rfl, rfl⟩, rfl⟩
  refine ⟨_, t, hrelease.append hrun, hfreed, ?_⟩
  rw [hreferences, List.append_nil]
  refine List.count_pos_iff.mp ?_
  rw [List.count_erase_self]
  omega

/-- Two records of a key are alive at once; and a record with 2^32 + 1 references is freed with the
first of them. -/
theorem two_alive :
    (∃ t, RegistryRun between t ∧ ∃ r x, t.shared.records[0]? = some r ∧
      t.shared.records[1]? = some x ∧ r.key = x.key ∧ r.key.kind = .context ∧ r.freed = 0 ∧
      x.freed = 0) ∧
    ∃ as t, Run step (fun _ _ => True) ⟨{}, []⟩ as t ∧
      (∃ r, t.shared.records[0]? = some r ∧ r.freed = 1) ∧ 0 ∈ t.shared.references := by
  constructor
  · exact exists_run_of_exec step Fits ⟨{}, []⟩ between ⟨_, rfl, _, _, rfl, rfl, rfl, rfl, rfl, rfl⟩
  · have hretain : Run step (fun _ _ => True) ⟨{}, []⟩
        [.retain ⟨4096, .context⟩, .turn 0 true, .turn 0 true, .turn 0 true] (oneRecord 1 [0]) :=
      run_of_exec _ rfl
    obtain ⟨as, t, hrun, hfreed, hmem⟩ := run_freed
      ([0] ++ List.replicate (2 ^ 32) 0) (by
        rw [List.count_append, List.count_replicate_self]
        decide)
    exact ⟨_, t, (hretain.append (run_share (2 ^ 32))).append hrun, hfreed, hmem⟩

end Run

end RegistryThreads

end Zzdds.Util
