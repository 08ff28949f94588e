import Zzdds.Util.ListenerIdentity

/-! # The references to listener identities, counted

What the threads in `retain` and `release` are about to do, as roles, and what every step keeps of
the counts of records, of the table and of its locks. -/

namespace Zzdds.Util

open Lib Trapping

/-! ### What a step rests on

What the threads are about to do is kept as how often each role is taken: a reference, a stripe
locked, and so on. -/

inductive IdentityRole where
  | ref (id : ℕ)
  | gone (id : ℕ)
  | lock (j : ℕ)
  | looking (key : Key)
  | reviving (key : Key) (id : ℕ)
  | dropping (id : ℕ)
  | lasting (j id : ℕ)
  | removing (j id : ℕ)
  | granting (id ticket : ℕ)
deriving DecidableEq

def roles : IdentityFrame → List IdentityRole
  | .retain _ => []
  | .lookup key => [.lock (stripe key), .looking key]
  | .revive key id => [.lock (stripe key), .reviving key id]
  | .unlock j got => .lock j :: (got.map .ref).toList
  | .release id => [.ref id]
  | .drop id _ => [.ref id, .dropping id]
  | .last j id => [.ref id, .lock j, .lasting j id]
  | .remove j id => [.gone id, .lock j, .removing j id]
  | .destroy id => [.gone id]
  | .grant id ticket => [.granting id ticket]

/-- What of a record the registry goes by. -/
structure Core where
  key : Key
  refs : ℕ
  freed : ℕ

def Identity.core (r : Identity) : Core := ⟨r.key, r.refs, r.freed⟩

/-- The registry and the roles `N` taken in it. -/
structure Ledger (cores : List Core) (map : Key → Option ℕ) (locked : ℕ → Bool)
    (N : IdentityRole → ℕ) : Prop where
  refs : ∀ id c, cores[id]? = some c → c.refs = N (.ref id) ∧ N (.ref id) < u32
  freed : ∀ id c, cores[id]? = some c →
    c.freed + N (.gone id) = if N (.ref id) = 0 then 1 else 0
  known : ∀ id, cores.length ≤ id → N (.ref id) = 0 ∧ N (.gone id) = 0
  mapped : ∀ id c, cores[id]? = some c → c.key.kind = .context → 0 < N (.ref id) →
    map c.key = some id
  table : ∀ key id, map key = some id → ∃ c, cores[id]? = some c ∧ c.key = key ∧
    key.kind = .context ∧ (0 < N (.ref id) ∨ 0 < N (.removing (stripe key) id))
  lock : ∀ j, N (.lock j) = if locked j then 1 else 0
  looking : ∀ key, 0 < N (.looking key) → key.kind = .context
  reviving : ∀ key id, 0 < N (.reviving key id) → map key = some id ∧ 0 < N (.ref id)
  dropping : ∀ id, 0 < N (.dropping id) → ∃ c, cores[id]? = some c ∧ c.key.kind = .context
  lasting : ∀ j id, 0 < N (.lasting j id) ∨ 0 < N (.removing j id) →
    ∃ c, cores[id]? = some c ∧ c.key.kind = .context ∧ stripe c.key = j
  removing : ∀ j id c, 0 < N (.removing j id) → cores[id]? = some c → map c.key = some id

/-- Whoever looks up, removes or revives a record has its stripe locked. -/
structure Exclusive (n : IdentityRole → ℕ) : Prop where
  removing : ∀ j id, n (.removing j id) ≤ n (.lock j)
  reviving : ∀ key id, n (.reviving key id) ≤ n (.lock (stripe key))

section Ledger

variable {cores cores' : List Core} {map map' : Key → Option ℕ} {locked locked' : ℕ → Bool}
  {N N' n : IdentityRole → ℕ} {id j : ℕ} {c c' : Core} {key : Key}

/-- Steps that touch no record. -/
theorem Ledger.move (h : Ledger cores map locked N) (href : ∀ i, N' (.ref i) = N (.ref i))
    (hgone : ∀ i, N' (.gone i) = N (.gone i))
    (hremoving : ∀ j i, N' (.removing j i) = N (.removing j i))
    (hlocked : ∀ j, N' (.lock j) = if locked' j then 1 else 0)
    (hlooking : ∀ key, 0 < N' (.looking key) → key.kind = .context)
    (hreviving : ∀ key i, 0 < N' (.reviving key i) → map key = some i ∧ 0 < N (.ref i))
    (hdropping : ∀ i, 0 < N' (.dropping i) → ∃ c, cores[i]? = some c ∧ c.key.kind = .context)
    (hlasting : ∀ j i, 0 < N' (.lasting j i) →
      ∃ c, cores[i]? = some c ∧ c.key.kind = .context ∧ stripe c.key = j) :
    Ledger cores map locked' N' where
  refs i c hc := by
    rw [href]
    exact h.refs i c hc
  freed i c hc := by
    rw [href, hgone]
    exact h.freed i c hc
  known i hi := by
    rw [href, hgone]
    exact h.known i hi
  mapped i c hc hkind hpos := h.mapped i c hc hkind (href i ▸ hpos)
  table key i hmap := by
    rw [href, hremoving]
    exact h.table key i hmap
  lock := hlocked
  looking := hlooking
  reviving key i hpos := by
    rw [href]
    exact hreviving key i hpos
  dropping := hdropping
  lasting j i hpos := hpos.elim (hlasting j i) fun hpos =>
    h.lasting j i (.inr (hremoving j i ▸ hpos))
  removing j i c hpos hc := h.removing j i c (hremoving j i ▸ hpos) hc

/-- Steps that count one record anew. -/
theorem Ledger.count (h : Ledger cores map locked N) (hc : cores[id]? = some c)
    (hkey : c'.key = c.key) (hrefs : c'.refs = N' (.ref id) ∧ N' (.ref id) < u32)
    (hfreed : c'.freed + N' (.gone id) = if N' (.ref id) = 0 then 1 else 0)
    (hother : ∀ i, i ≠ id → N' (.ref i) = N (.ref i) ∧ N' (.gone i) = N (.gone i) ∧
      ∀ j, N' (.removing j i) = N (.removing j i))
    (hpos : 0 < N' (.ref id) → 0 < N (.ref id))
    (hmap : c.key.kind = .context → map c.key = some id →
      0 < N' (.ref id) ∨ 0 < N' (.removing (stripe c.key) id))
    (hlocked : ∀ j, N' (.lock j) = if locked j then 1 else 0)
    (hlooking : ∀ key, 0 < N' (.looking key) → 0 < N (.looking key))
    (hreviving : ∀ key i, 0 < N' (.reviving key i) → 0 < N (.reviving key i))
    (hrevived : ∀ key, 0 < N' (.reviving key id) → 0 < N' (.ref id))
    (hdropping : ∀ i, 0 < N' (.dropping i) → 0 < N (.dropping i))
    (hlasting : ∀ j i, 0 < N' (.lasting j i) ∨ 0 < N' (.removing j i) →
      0 < N (.lasting j i) ∨ 0 < N (.removing j i))
    (hremoving : ∀ j, 0 < N' (.removing j id) → 0 < N (.removing j id) ∨ map c.key = some id) :
    Ledger (cores.set id c') map locked N' := by
  obtain ⟨hlt, -⟩ := List.getElem?_eq_some_iff.mp hc
  have hget (i : ℕ) : (cores.set id c')[i]? = if i = id then some c' else cores[i]? := by
    split_ifs with hi
    · rw [hi, List.getElem?_set_self hlt]
    · exact List.getElem?_set_ne (Ne.symm hi)
  have hkeys {i : ℕ} {x : Core} (hx : cores[i]? = some x) :
      ∃ y, (cores.set id c')[i]? = some y ∧ y.key = x.key := by
    rw [hget]
    split_ifs with hi
    · rw [hi] at hx
      exact ⟨c', rfl, hkey.trans (congrArg Core.key (Option.some.inj (hc.symm.trans hx)))⟩
    · exact ⟨x, hx, rfl⟩
  refine ⟨fun i x hx => ?_, fun i x hx => ?_, fun i hi => ?_, fun i x hx hkind hi => ?_,
    fun key i hi => ?_, hlocked, fun key hi => h.looking key (hlooking key hi),
    fun key i hi => ?_, fun i hi => ?_, fun j i hi => ?_, fun j i x hi hx => ?_⟩
  · rw [hget] at hx
    split_ifs at hx with hi
    · cases hx
      exact hi ▸ hrefs
    · rw [(hother i hi).1]
      exact h.refs i x hx
  · rw [hget] at hx
    split_ifs at hx with hi
    · cases hx
      exact hi ▸ hfreed
    · rw [(hother i hi).1, (hother i hi).2.1]
      exact h.freed i x hx
  · rw [List.length_set] at hi
    have hne : i ≠ id := by omega
    rw [(hother i hne).1, (hother i hne).2.1]
    exact h.known i hi
  · rw [hget] at hx
    split_ifs at hx with hid
    · cases hx
      subst hid
      rw [hkey] at hkind ⊢
      exact h.mapped i c hc hkind (hpos hi)
    · rw [(hother i hid).1] at hi
      exact h.mapped i x hx hkind hi
  · obtain ⟨x, hx, rfl, hkind, hin⟩ := h.table key i hi
    obtain ⟨y, hy, hyx⟩ := hkeys hx
    refine ⟨y, hy, hyx, hkind, ?_⟩
    by_cases hid : i = id
    · subst hid
      cases Option.some.inj (hc.symm.trans hx)
      exact hmap hkind hi
    · rw [(hother i hid).1, (hother i hid).2.2]
      exact hin
  · obtain ⟨hmapped, hin⟩ := h.reviving key i (hreviving key i hi)
    refine ⟨hmapped, ?_⟩
    by_cases hid : i = id
    · subst hid
      exact hrevived key hi
    · rw [(hother i hid).1]
      exact hin
  · obtain ⟨x, hx, hkind⟩ := h.dropping i (hdropping i hi)
    obtain ⟨y, hy, hyx⟩ := hkeys hx
    exact ⟨y, hy, hyx ▸ hkind⟩
  · obtain ⟨x, hx, hkind, hj⟩ := h.lasting j i (hlasting j i hi)
    obtain ⟨y, hy, hyx⟩ := hkeys hx
    exact ⟨y, hy, hyx ▸ hkind, hyx ▸ hj⟩
  · rw [hget] at hx
    split_ifs at hx with hid
    · cases hx
      rw [hid] at hi ⊢
      rw [hkey]
      exact (hremoving j hi).elim (fun hi => h.removing j id c hi hc) fun hmap => hmap
    · rw [(hother i hid).2.2] at hi
      exact h.removing j i x hi hx

/-- A new record, with one reference. -/
theorem Ledger.create (h : Ledger cores map locked N) (key : Key)
    (hmap : ∀ k i, map' k = some i ↔
      map k = some i ∨ key.kind = .context ∧ k = key ∧ i = cores.length)
    (href : ∀ i, N' (.ref i) = if i = cores.length then 1 else N (.ref i))
    (hgone : ∀ i, N' (.gone i) = N (.gone i))
    (hremoving : ∀ j i, N' (.removing j i) = N (.removing j i))
    (hlocked : ∀ j, N' (.lock j) = if locked j then 1 else 0)
    (hlooking : ∀ key, 0 < N' (.looking key) → 0 < N (.looking key))
    (hreviving : ∀ key i, N' (.reviving key i) = N (.reviving key i))
    (hdropping : ∀ i, N' (.dropping i) = N (.dropping i))
    (hlasting : ∀ j i, N' (.lasting j i) = N (.lasting j i)) :
    Ledger (cores ++ [⟨key, 1, 0⟩]) map' locked N' := by
  have hsame {i : ℕ} (hi : i ≠ cores.length) : N' (.ref i) = N (.ref i) :=
    (href i).trans (if_neg hi)
  have hnew : N' (.ref cores.length) = 1 := (href _).trans (if_pos rfl)
  have hcases {i : ℕ} {x : Core} (hx : (cores ++ [⟨key, 1, 0⟩])[i]? = some x) :
      i ≠ cores.length ∧ cores[i]? = some x ∨ i = cores.length ∧ x = ⟨key, 1, 0⟩ := by
    rcases Nat.lt_or_ge i cores.length with hlt | hge
    · rw [List.getElem?_append_left hlt] at hx
      exact .inl ⟨hlt.ne, hx⟩
    · obtain ⟨hlt, -⟩ := List.getElem?_eq_some_iff.mp hx
      rw [List.length_append, List.length_singleton] at hlt
      have heq : i = cores.length := by omega
      subst heq
      rw [List.getElem?_concat_length] at hx
      exact .inr ⟨rfl, (Option.some.inj hx).symm⟩
  have hold {i : ℕ} {x : Core} (hx : cores[i]? = some x) :
      (cores ++ [⟨key, 1, 0⟩])[i]? = some x ∧ i ≠ cores.length := by
    obtain ⟨hlt, -⟩ := List.getElem?_eq_some_iff.mp hx
    exact ⟨(List.getElem?_append_left hlt).trans hx, hlt.ne⟩
  refine ⟨fun i x hx => ?_, fun i x hx => ?_, fun i hi => ?_, fun i x hx hkind hi => ?_,
    fun k i hi => ?_, hlocked, fun k hk => h.looking k (hlooking k hk),
    fun k i hi => ?_, fun i hi => ?_, fun j i hi => ?_, fun j i x hi hx => ?_⟩
  · rcases hcases hx with ⟨hne, hx⟩ | ⟨rfl, rfl⟩
    · rw [hsame hne]
      exact h.refs i x hx
    · rw [hnew]
      exact ⟨rfl, by decide⟩
  · rw [hgone]
    rcases hcases hx with ⟨hne, hx⟩ | ⟨rfl, rfl⟩
    · rw [hsame hne]
      exact h.freed i x hx
    · rw [hnew, (h.known _ le_rfl).2]
      rfl
  · rw [List.length_append, List.length_singleton] at hi
    rw [hgone, hsame (by omega)]
    exact h.known i (by omega)
  · rcases hcases hx with ⟨hne, hx⟩ | ⟨rfl, rfl⟩
    · rw [hsame hne] at hi
      exact (hmap _ _).mpr (.inl (h.mapped i x hx hkind hi))
    · exact (hmap _ _).mpr (.inr ⟨hkind, rfl, rfl⟩)
  · rcases (hmap k i).mp hi with hi | ⟨hkind, rfl, rfl⟩
    · obtain ⟨x, hx, hk, hkind, hin⟩ := h.table k i hi
      obtain ⟨hx', hne⟩ := hold hx
      refine ⟨x, hx', hk, hkind, ?_⟩
      rw [hsame hne, hremoving]
      exact hin
    · exact ⟨_, List.getElem?_concat_length, rfl, hkind, .inl (hnew ▸ Nat.one_pos)⟩
  · rw [hreviving] at hi
    obtain ⟨hmapped, hin⟩ := h.reviving k i hi
    obtain ⟨x, hx, -⟩ := h.table k i hmapped
    rw [hsame (hold hx).2]
    exact ⟨(hmap k i).mpr (.inl hmapped), hin⟩
  · obtain ⟨x, hx, hkind⟩ := h.dropping i (hdropping i ▸ hi)
    exact ⟨x, (hold hx).1, hkind⟩
  · rw [hlasting, hremoving] at hi
    obtain ⟨x, hx, hkind⟩ := h.lasting j i hi
    exact ⟨x, (hold hx).1, hkind⟩
  · rw [hremoving] at hi
    obtain ⟨y, hy, -⟩ := h.lasting j i (.inr hi)
    cases Option.some.inj (hx.symm.trans (hold hy).1)
    exact (hmap _ _).mpr (.inl (h.removing j i x hi hy))

/-- While a stripe is locked by one thread it is by no other. -/
theorem Ledger.alone {ρs : List IdentityRole} (h : Ledger cores map locked (also ρs n))
    (hj : .lock j ∈ ρs) : n (.lock j) = 0 ∧ locked j = true := by
  have hlock := h.lock j
  have hpos := List.count_pos_iff.mpr hj
  rw [also] at hlock
  split_ifs at hlock with hl
  · exact ⟨by omega, hl⟩
  · omega

/-- A record found under its stripe's lock has a reference. -/
theorem Ledger.found {ρs : List IdentityRole} (h : Ledger cores map locked (also ρs n))
    (hx : Exclusive n) (hlock : .lock (stripe key) ∈ ρs) (hno : .removing (stripe key) id ∉ ρs)
    (hmap : map key = some id) : 0 < also ρs n (.ref id) := by
  obtain ⟨c, -, -, -, hin⟩ := h.table key id hmap
  refine hin.resolve_right fun hremoving => ?_
  have hle := hx.removing (stripe key) id
  have halone := (h.alone hlock).1
  rw [also, List.count_eq_zero.mpr hno] at hremoving
  omega

theorem Ledger.lockStripe (h : Ledger cores map locked n) (hj : locked j = false) :
    n (.lock j) = 0 ∧ ∀ i, (if j = i then 1 else 0) + n (.lock i) =
      if Function.update locked j true i then 1 else 0 := by
  have hzero : n (.lock j) = 0 := by
    rw [h.lock, hj]
    rfl
  refine ⟨hzero, fun i => ?_⟩
  by_cases hi : j = i
  · subst hi
    rw [if_pos rfl, hzero, Function.update_self, if_pos rfl]
  · rw [if_neg hi, Nat.zero_add, Function.update_of_ne (Ne.symm hi), h.lock]

theorem Ledger.retain (h : Ledger cores map locked n) (hj : locked (stripe key) = false)
    (hkind : key.kind = .context) : Ledger cores map (Function.update locked (stripe key) true)
      (also [.lock (stripe key), .looking key] n) := by
  refine h.move (fun i => ?_) (fun i => ?_) (fun j i => ?_) (fun j => ?_) (fun k hk => ?_)
    (fun k i hk => ?_) (fun i hi => ?_) fun j i hi => ?_ <;>
  simp only [also_cons, also_nil, reduceCtorEq, if_false, Nat.zero_add,
    IdentityRole.lock.injEq, IdentityRole.looking.injEq] at *
  · exact (h.lockStripe hj).2 j
  · by_cases hkey : key = k
    · exact hkey ▸ hkind
    · rw [if_neg hkey, Nat.zero_add] at hk
      exact h.looking k hk
  · exact h.reviving k i hk
  · exact h.dropping i hi
  · exact h.lasting j i (.inl hi)

theorem Ledger.lookup_found
    (h : Ledger cores map locked (also [.lock (stripe key), .looking key] n)) (hx : Exclusive n)
    (hmap : map key = some id) :
    Ledger cores map locked (also [.lock (stripe key), .reviving key id] n) := by
  have hfound := h.found hx List.mem_cons_self (by simp) hmap
  have hlock := h.lock
  have hlooking := h.looking
  have hreviving := h.reviving
  have hdropping := h.dropping
  have hlasting := h.lasting
  refine h.move (fun i => ?_) (fun i => ?_) (fun j i => ?_) (fun j => ?_) (fun k hk => ?_)
    (fun k i hk => ?_) (fun i hi => ?_) fun j i hi => ?_ <;>
  simp only [also_cons, also_nil, reduceCtorEq, if_false, Nat.zero_add,
    IdentityRole.lock.injEq, IdentityRole.reviving.injEq] at *
  · exact hlock j
  · exact hlooking k (Nat.add_pos_right _ hk)
  · by_cases hki : key = k ∧ id = i
    · obtain ⟨rfl, rfl⟩ := hki
      exact ⟨hmap, hfound⟩
    · rw [if_neg hki, Nat.zero_add] at hk
      exact hreviving k i hk
  · exact hdropping i hi
  · exact hlasting j i (.inl hi)

theorem Ledger.unlock {ρs : List IdentityRole}
    (h : Ledger cores map locked (also (.lock j :: ρs) n)) :
    Ledger cores map (Function.update locked j false) (also ρs n) := by
  have hsame {ρ : IdentityRole} (hρ : .lock j ≠ ρ) : also ρs n ρ = also (.lock j :: ρs) n ρ := by
    rw [also_cons, if_neg hρ, Nat.zero_add]
  refine h.move (fun i => hsame (by simp)) (fun i => hsame (by simp))
    (fun j i => hsame (by simp)) (fun i => ?_)
    (fun k hk => h.looking k (hk.trans_eq (hsame (by simp))))
    (fun k i hk => h.reviving k i (hk.trans_eq (hsame (by simp))))
    (fun i hi => h.dropping i (hi.trans_eq (hsame (by simp))))
    fun j i hi => h.lasting j i (.inl (hi.trans_eq (hsame (by simp))))
  have hlock := h.lock i
  rw [also_cons] at hlock
  by_cases hi : j = i
  · subst hi
    rw [Function.update_self, if_neg Bool.false_ne_true]
    rw [if_pos rfl] at hlock
    split_ifs at hlock
    · omega
    · omega
  · rw [Function.update_of_ne (Ne.symm hi), ← hlock, if_neg (by simpa using hi), Nat.zero_add]

theorem Ledger.lookup_missing
    (h : Ledger cores map locked (also [.lock (stripe key), .looking key] n)) :
    Ledger cores map locked (also [.lock (stripe key)] n) := by
  have hlock := h.lock
  have hlooking := h.looking
  have hreviving := h.reviving
  have hdropping := h.dropping
  have hlasting := h.lasting
  refine h.move (fun i => ?_) (fun i => ?_) (fun j i => ?_) (fun j => ?_) (fun k hk => ?_)
    (fun k i hk => ?_) (fun i hi => ?_) fun j i hi => ?_ <;>
  simp only [also_cons, also_nil, reduceCtorEq, if_false, Nat.zero_add,
    IdentityRole.lock.injEq] at *
  · exact hlock j
  · exact hlooking k (Nat.add_pos_right _ hk)
  · exact hreviving k i hk
  · exact hdropping i hi
  · exact hlasting j i (.inl hi)

theorem Ledger.lookup_create
    (h : Ledger cores map locked (also [.lock (stripe key), .looking key] n))
    (hmap : map key = none) :
    Ledger (cores ++ [⟨key, 1, 0⟩]) (Function.update map key (some cores.length)) locked
      (also [.lock (stripe key), .ref cores.length] n) := by
  have hkind : key.kind = .context := h.looking key (by
    simp only [also_cons, reduceCtorEq, if_false, if_true]
    omega)
  have hzero : n (.ref cores.length) = 0 := by
    have hknown := (h.known cores.length le_rfl).1
    simpa only [also_cons, also_nil, reduceCtorEq, if_false, Nat.zero_add] using hknown
  have hlock := h.lock
  refine h.create key (fun k i => ?_) (fun i => ?_) (fun i => ?_) (fun j i => ?_) (fun j => ?_)
    (fun k hk => ?_) (fun k i => ?_) (fun i => ?_) fun j i => ?_
  · by_cases hk : k = key
    · subst hk
      rw [Function.update_self, hmap]
      simp [hkind, eq_comm]
    · rw [Function.update_of_ne hk]
      simp [hk]
  all_goals simp only [also_cons, also_nil, reduceCtorEq, if_false, Nat.zero_add,
    IdentityRole.lock.injEq, IdentityRole.ref.injEq] at *
  · by_cases hi : i = cores.length
    · rw [if_pos hi, if_pos hi.symm, hi, hzero]
    · rw [if_neg hi, if_neg (Ne.symm hi), Nat.zero_add]
  · exact hlock j
  · exact Nat.add_pos_right _ hk

theorem Ledger.create_registration (h : Ledger cores map locked n)
    (hkind : key.kind = .registration) :
    Ledger (cores ++ [⟨key, 1, 0⟩]) map locked (also [.ref cores.length] n) := by
  have hzero := (h.known cores.length le_rfl).1
  refine h.create key (fun k i => ?_) (fun i => ?_) (fun i => ?_) (fun j i => ?_) (fun j => ?_)
    (fun k hk => ?_) (fun k i => ?_) (fun i => ?_) fun j i => ?_
  · simp [hkind]
  all_goals simp only [also_cons, also_nil, reduceCtorEq, if_false, Nat.zero_add,
    IdentityRole.ref.injEq] at *
  · by_cases hi : i = cores.length
    · rw [if_pos hi, if_pos hi.symm, hi, hzero]
    · rw [if_neg hi, if_neg (Ne.symm hi), Nat.zero_add]
  · exact h.lock j
  · exact hk

theorem Ledger.revive
    (h : Ledger cores map locked (also [.lock (stripe key), .reviving key id] n))
    (hc : cores[id]? = some c) (hsmall : also [.lock (stripe key), .ref id] n (.ref id) < u32) :
    Ledger (cores.set id { c with refs := (c.refs + 1) % u32 }) map locked
      (also [.lock (stripe key), .ref id] n) := by
  have hpos := (h.reviving key id (by
    simp only [also_cons, reduceCtorEq, if_false, if_true]
    omega)).2
  have hrefs := (h.refs id c hc).1
  have hfreed := h.freed id c hc
  have hlock := h.lock
  refine h.count hc rfl ?_ ?_ (fun i hi => ?_) (fun _ => hpos) (fun _ _ => ?_) (fun j => ?_)
    (fun k hk => ?_) (fun k i hk => ?_) (fun k _ => ?_) (fun i hi => ?_) (fun j i hi => ?_)
    fun j hi => ?_
  all_goals simp only [also_cons, also_nil, reduceCtorEq, if_false, if_true, Nat.zero_add,
    IdentityRole.lock.injEq, IdentityRole.ref.injEq, IdentityRole.reviving.injEq] at *
  · refine ⟨?_, hsmall⟩
    rw [hrefs, Nat.add_comm, Nat.mod_eq_of_lt hsmall]
  · rw [if_neg (by omega)] at hfreed ⊢
    exact hfreed
  · rw [if_neg (Ne.symm hi), Nat.zero_add]
    exact ⟨rfl, trivial, fun _ => trivial⟩
  · exact .inl (Nat.add_pos_left Nat.one_pos _)
  · exact hlock j
  · exact hk
  · omega
  · omega
  · exact hi
  · exact hi
  · exact .inl hi

theorem Ledger.share (h : Ledger cores map locked n) (hc : cores[id]? = some c)
    (hpos : 0 < n (.ref id)) (hsmall : also [.ref id] n (.ref id) < u32) :
    Ledger (cores.set id { c with refs := (c.refs + 1) % u32 }) map locked
      (also [.ref id] n) := by
  have hrefs := (h.refs id c hc).1
  have hfreed := h.freed id c hc
  have hlock := h.lock
  refine h.count hc rfl ?_ ?_ (fun i hi => ?_) (fun _ => hpos) (fun _ _ => ?_) (fun j => ?_)
    (fun k hk => ?_) (fun k i hk => ?_) (fun k _ => ?_) (fun i hi => ?_) (fun j i hi => ?_)
    fun j hi => ?_
  all_goals simp only [also_cons, also_nil, reduceCtorEq, if_false, if_true, Nat.zero_add,
    IdentityRole.ref.injEq] at *
  · refine ⟨?_, hsmall⟩
    rw [hrefs, Nat.add_comm, Nat.mod_eq_of_lt hsmall]
  · rw [if_neg (by omega)] at hfreed ⊢
    exact hfreed
  · rw [if_neg (Ne.symm hi), Nat.zero_add]
    exact ⟨rfl, trivial, fun _ => trivial⟩
  · exact .inl (Nat.add_pos_left Nat.one_pos _)
  · exact hlock j
  · exact hk
  · exact hk
  · omega
  · exact hi
  · exact hi
  · exact .inl hi

theorem Ledger.release_context (h : Ledger cores map locked (also [.ref id] n))
    (hc : cores[id]? = some c) (hkind : c.key.kind = .context) :
    Ledger cores map locked (also [.ref id, .dropping id] n) := by
  have hlock := h.lock
  have hlooking := h.looking
  have hreviving := h.reviving
  have hdropping := h.dropping
  have hlasting := h.lasting
  refine h.move (fun i => ?_) (fun i => ?_) (fun j i => ?_) (fun j => ?_) (fun k hk => ?_)
    (fun k i hk => ?_) (fun i hi => ?_) fun j i hi => ?_ <;>
  simp only [also_cons, also_nil, reduceCtorEq, if_false, Nat.zero_add,
    IdentityRole.dropping.injEq] at *
  · exact hlock j
  · exact hlooking k hk
  · exact hreviving k i hk
  · by_cases hid : id = i
    · exact ⟨c, hid ▸ hc, hkind⟩
    · rw [if_neg hid, Nat.zero_add] at hi
      exact hdropping i hi
  · exact hlasting j i (.inl hi)

theorem unref_eq {m : ℕ} (hpos : 1 ≤ m) (hlt : m < u32) : (m + (u32 - 1)) % u32 = m - 1 := by
  unfold u32 at *
  omega

/-- A reference is dropped, and with the last one of a registration the record. -/
theorem Ledger.release_registration (h : Ledger cores map locked (also [.ref id] n))
    (hc : cores[id]? = some c) (hkind : c.key.kind = .registration) :
    Ledger (cores.set id { c with refs := (c.refs + (u32 - 1)) % u32 }) map locked
      (also (if c.refs = 1 then [.gone id] else []) n) := by
  have hrefs := h.refs id c hc
  have hfreed := h.freed id c hc
  have hlock := h.lock
  have hno (k : Key) (hk : map k = some id) : False := by
    obtain ⟨x, hx, rfl, hcontext, -⟩ := h.table k id hk
    cases Option.some.inj (hc.symm.trans hx)
    rw [hkind] at hcontext
    cases hcontext
  have hreviving (k : Key) (hk : 0 < n (.reviving k id)) : False := by
    refine hno k (h.reviving k id ?_).1
    simpa only [also_cons, also_nil, reduceCtorEq, if_false, Nat.zero_add] using hk
  by_cases hone : c.refs = 1
  · rw [if_pos hone]
    refine h.count hc rfl ?_ ?_ (fun i hi => ?_) (fun _ => ?_) (fun _ hk => (hno _ hk).elim)
      (fun j => ?_) (fun k hk => ?_) (fun k i hk => ?_) (fun k hk => ?_) (fun i hi => ?_)
      (fun j i hi => ?_) fun j hi => ?_
    all_goals simp only [also_cons, also_nil, reduceCtorEq, if_false, if_true, Nat.zero_add,
      IdentityRole.ref.injEq, IdentityRole.gone.injEq] at *
    · rw [unref_eq (by omega) (by omega)]
      omega
    · rw [if_neg (by omega)] at hfreed
      rw [if_pos (by omega)]
      omega
    · rw [if_neg (Ne.symm hi), Nat.zero_add, Nat.zero_add]
      exact ⟨rfl, rfl, fun _ => trivial⟩
    · omega
    · exact hlock j
    · exact hk
    · exact hk
    · exact (hreviving k hk).elim
    · exact hi
    · exact hi
    · exact .inl hi
  · rw [if_neg hone, also_nil]
    refine h.count hc rfl ?_ ?_ (fun i hi => ?_) (fun _ => ?_) (fun _ hk => (hno _ hk).elim)
      (fun j => ?_) (fun k hk => ?_) (fun k i hk => ?_) (fun k hk => ?_) (fun i hi => ?_)
      (fun j i hi => ?_) fun j hi => ?_
    all_goals simp only [also_cons, also_nil, reduceCtorEq, if_false, if_true, Nat.zero_add,
      IdentityRole.ref.injEq] at *
    · rw [unref_eq (by omega) (by omega)]
      omega
    · rw [if_neg (by omega)] at hfreed ⊢
      exact hfreed
    · rw [if_neg (Ne.symm hi), Nat.zero_add]
      exact ⟨rfl, trivial, fun _ => trivial⟩
    · omega
    · exact hlock j
    · exact hk
    · exact hk
    · exact (hreviving k hk).elim
    · exact hi
    · exact hi
    · exact .inl hi

theorem Ledger.drop (h : Ledger cores map locked (also [.ref id, .dropping id] n))
    (hc : cores[id]? = some c) (hone : 1 < c.refs) :
    Ledger (cores.set id { c with refs := c.refs - 1 }) map locked n := by
  have hrefs := h.refs id c hc
  have hfreed := h.freed id c hc
  have hlock := h.lock
  refine h.count hc rfl ?_ ?_ (fun i hi => ?_) (fun _ => ?_) (fun _ _ => .inl ?_) (fun j => ?_)
    (fun k hk => ?_) (fun k i hk => ?_) (fun k _ => ?_) (fun i hi => ?_) (fun j i hi => ?_)
    fun j hi => ?_
  all_goals simp only [also_cons, also_nil, reduceCtorEq, if_false, if_true, Nat.zero_add,
    IdentityRole.ref.injEq, IdentityRole.dropping.injEq] at *
  · omega
  · rw [if_neg (by omega)] at hfreed ⊢
    exact hfreed
  · rw [if_neg (Ne.symm hi), Nat.zero_add]
    exact ⟨rfl, trivial, fun _ => trivial⟩
  · omega
  · omega
  · exact hlock j
  · exact hk
  · exact hk
  · omega
  · omega
  · exact hi
  · exact .inl hi

theorem Ledger.drop_lock (h : Ledger cores map locked (also [.ref id, .dropping id] n))
    (hc : cores[id]? = some c) (hj : locked (stripe c.key) = false) :
    Ledger cores map (Function.update locked (stripe c.key) true)
      (also [.ref id, .lock (stripe c.key), .lasting (stripe c.key) id] n) := by
  have hlock := (h.lockStripe hj).2
  have hlooking := h.looking
  have hreviving := h.reviving
  have hdropping := h.dropping
  have hlasting := h.lasting
  have hkind : c.key.kind = .context := by
    obtain ⟨x, hx, hkind⟩ := hdropping id (by
      simp only [also_cons, reduceCtorEq, if_false, if_true]
      omega)
    cases Option.some.inj (hc.symm.trans hx)
    exact hkind
  refine h.move (fun i => ?_) (fun i => ?_) (fun j i => ?_) (fun j => ?_) (fun k hk => ?_)
    (fun k i hk => ?_) (fun i hi => ?_) fun j i hi => ?_ <;>
  simp only [also_cons, also_nil, reduceCtorEq, if_false, Nat.zero_add,
    IdentityRole.lock.injEq, IdentityRole.lasting.injEq] at *
  · exact hlock j
  · exact hlooking k hk
  · exact hreviving k i hk
  · exact hdropping i (Nat.add_pos_right _ hi)
  · by_cases hji : stripe c.key = j ∧ id = i
    · obtain ⟨rfl, rfl⟩ := hji
      exact ⟨c, hc, hkind, rfl⟩
    · rw [if_neg hji, Nat.zero_add] at hi
      exact hlasting j i (.inl hi)

/-- The last reference goes under the stripe's lock. -/
theorem Ledger.last (h : Ledger cores map locked (also [.ref id, .lock j, .lasting j id] n))
    (hx : Exclusive n) (hc : cores[id]? = some c) :
    Ledger (cores.set id { c with refs := (c.refs + (u32 - 1)) % u32 }) map locked
      (also (if c.refs = 1 then [.gone id, .lock j, .removing j id] else [.lock j]) n) := by
  have hrefs := h.refs id c hc
  have hfreed := h.freed id c hc
  have hlock := h.lock
  have halone := (h.alone (j := j) (by simp)).1
  obtain ⟨x, hxc, hkind, hstripe⟩ := h.lasting j id (.inl (by
    simp only [also_cons, reduceCtorEq, if_false, if_true]
    omega))
  cases Option.some.inj (hc.symm.trans hxc)
  have hpos : 0 < also [.ref id, .lock j, .lasting j id] n (.ref id) := by
    rw [also_cons, if_pos rfl]
    omega
  have hmap := h.mapped id c hc hkind hpos
  have hreviving (k : Key) (hk : 0 < n (.reviving k id)) : False := by
    obtain ⟨hk', -⟩ := h.reviving k id (by
      simpa only [also_cons, also_nil, reduceCtorEq, if_false, Nat.zero_add] using hk)
    obtain ⟨y, hy, hyk, -⟩ := h.table k id hk'
    cases Option.some.inj (hc.symm.trans hy)
    have hle := hx.reviving k id
    rw [← hyk, hstripe, halone] at hle
    rw [hyk] at hle
    omega
  by_cases hone : c.refs = 1
  · rw [if_pos hone]
    refine h.count hc rfl ?_ ?_ (fun i hi => ?_) (fun _ => hpos) (fun _ _ => .inr ?_)
      (fun j => ?_) (fun k hk => ?_) (fun k i hk => ?_) (fun k hk => ?_) (fun i hi => ?_)
      (fun j i hi => ?_) fun _ _ => .inr hmap
    all_goals simp only [also_cons, also_nil, reduceCtorEq, if_false, if_true, Nat.zero_add,
      IdentityRole.ref.injEq, IdentityRole.gone.injEq, IdentityRole.lock.injEq,
      IdentityRole.lasting.injEq, IdentityRole.removing.injEq] at *
    · rw [unref_eq (by omega) (by omega)]
      omega
    · rw [if_neg (by omega)] at hfreed
      rw [if_pos (by omega)]
      omega
    · simp only [Ne.symm hi, and_false, if_false, Nat.zero_add]
      exact ⟨trivial, trivial, fun _ => trivial⟩
    · rw [hstripe, if_pos ⟨rfl, trivial⟩]
      omega
    · exact hlock _
    · exact hk
    · exact hk
    · exact (hreviving k hk).elim
    · exact hi
    · omega
  · rw [if_neg hone]
    refine h.count hc rfl ?_ ?_ (fun i hi => ?_) (fun _ => hpos) (fun _ _ => .inl ?_)
      (fun j => ?_) (fun k hk => ?_) (fun k i hk => ?_) (fun k hk => ?_) (fun i hi => ?_)
      (fun j i hi => ?_) fun _ _ => .inr hmap
    all_goals simp only [also_cons, also_nil, reduceCtorEq, if_false, if_true, Nat.zero_add,
      IdentityRole.ref.injEq, IdentityRole.lock.injEq, IdentityRole.lasting.injEq] at *
    · rw [unref_eq (by omega) (by omega)]
      omega
    · rw [if_neg (by omega)] at hfreed ⊢
      exact hfreed
    · rw [if_neg (Ne.symm hi), Nat.zero_add]
      exact ⟨rfl, trivial, fun _ => trivial⟩
    · omega
    · exact hlock _
    · exact hk
    · exact hk
    · exact (hreviving k hk).elim
    · exact hi
    · omega

/-- The record leaves the table, under the stripe's lock. -/
theorem Ledger.remove (h : Ledger cores map locked (also [.gone id, .lock j, .removing j id] n))
    (hx : Exclusive n) (hc : cores[id]? = some c) :
    Ledger cores (Function.update map c.key none) locked (also [.lock j, .gone id] n) := by
  have halone := (h.alone (j := j) (by simp)).1
  have hself : 0 < also [.gone id, .lock j, .removing j id] n (.removing j id) := by
    simp only [also_cons, reduceCtorEq, if_false, if_true]
    omega
  obtain ⟨x, hxc, -, hstripe⟩ := h.lasting j id (.inr hself)
  cases Option.some.inj (hc.symm.trans hxc)
  have hmap := h.removing j id c hself hc
  have hnone : n (.ref id) = 0 := by
    have hfreed := h.freed id c hc
    simp only [also_cons, also_nil, reduceCtorEq, if_false, if_true, Nat.zero_add] at hfreed
    split_ifs at hfreed with hzero
    · exact hzero
    · omega
  have hsame (ρ : IdentityRole) (hρ : .removing j id ≠ ρ) :
      also [.lock j, .gone id] n ρ = also [.gone id, .lock j, .removing j id] n ρ := by
    simp only [also_cons, also_nil, if_neg hρ]
    omega
  have hother {k : Key} {i : ℕ} (hk : map k = some i) (hne : k ≠ c.key) :
      Function.update map c.key none k = some i := (Function.update_of_ne hne _ _).trans hk
  refine ⟨fun i x hi => ?_, fun i x hi => ?_, fun i hi => ?_, fun i x hi hkind hpos => ?_,
    fun k i hk => ?_, fun j' => ?_, fun k hk => ?_, fun k i hk => ?_, fun i hi => ?_,
    fun j' i hi => ?_, fun j' i x hi hxi => ?_⟩
  · rw [hsame _ (by simp)]
    exact h.refs i x hi
  · rw [hsame _ (by simp), hsame _ (by simp)]
    exact h.freed i x hi
  · rw [hsame _ (by simp), hsame _ (by simp)]
    exact h.known i hi
  · rw [hsame _ (by simp)] at hpos
    have hi' := h.mapped i x hi hkind hpos
    refine hother hi' fun heq => ?_
    rw [heq, hmap] at hi'
    cases hi'
    simp only [also_cons, also_nil, reduceCtorEq, if_false, Nat.zero_add] at hpos
    omega
  · by_cases hkey : k = c.key
    · rw [hkey, Function.update_self] at hk
      cases hk
    · rw [Function.update_of_ne hkey] at hk
      obtain ⟨x, hi, hkx, hkind, hin⟩ := h.table k i hk
      have hne : id ≠ i := fun heq => hkey (by
        rw [← heq] at hi
        rw [← hkx, Option.some.inj (hc.symm.trans hi)])
      refine ⟨x, hi, hkx, hkind, ?_⟩
      rw [hsame _ (by simp), hsame _ (by simp [hne])]
      exact hin
  · rw [hsame _ (by simp)]
    exact h.lock j'
  · rw [hsame _ (by simp)] at hk
    exact h.looking k hk
  · rw [hsame _ (by simp)] at hk
    obtain ⟨hk', hpos⟩ := h.reviving k i hk
    refine ⟨hother hk' fun heq => ?_, hpos.trans_eq (hsame _ (by simp)).symm⟩
    have hle := hx.reviving k i
    rw [heq, hstripe, halone] at hle
    simp only [also_cons, also_nil, reduceCtorEq, if_false, Nat.zero_add] at hk
    rw [heq] at hk
    omega
  · rw [hsame _ (by simp)] at hi
    exact h.dropping i hi
  · refine h.lasting j' i (hi.imp (fun hi => hsame (.lasting j' i) (by simp) ▸ hi) fun hi => ?_)
    simp only [also_cons, also_nil, reduceCtorEq, if_false, Nat.zero_add] at hi ⊢
    omega
  · simp only [also_cons, also_nil, reduceCtorEq, if_false, Nat.zero_add] at hi
    have hi' : 0 < also [.gone id, .lock j, .removing j id] n (.removing j' i) := by
      simp only [also_cons, also_nil, reduceCtorEq, if_false, Nat.zero_add]
      omega
    have hx' := h.removing j' i x hi' hxi
    refine hother hx' fun heq => ?_
    rw [heq, hmap] at hx'
    cases hx'
    obtain ⟨y, hy, -, hj'⟩ := h.lasting j' id (.inr hi')
    cases Option.some.inj (hc.symm.trans hy)
    have hle := hx.removing j' id
    rw [← hj', hstripe, halone] at hle
    rw [← hj', hstripe] at hi
    omega

theorem Ledger.destroy (h : Ledger cores map locked (also [.gone id] n))
    (hc : cores[id]? = some c) :
    Ledger (cores.set id { c with freed := c.freed + 1 }) map locked n := by
  have hrefs := h.refs id c hc
  have hfreed := h.freed id c hc
  have hlock := h.lock
  have htable (hk : map c.key = some id) :
      0 < n (.ref id) ∨ 0 < n (.removing (stripe c.key) id) := by
    obtain ⟨x, hx, -, -, hin⟩ := h.table c.key id hk
    simpa only [also_cons, also_nil, reduceCtorEq, if_false, Nat.zero_add] using hin
  have hreviving (k : Key) (hk : 0 < n (.reviving k id)) : 0 < n (.ref id) := by
    have hin := (h.reviving k id (by
      simpa only [also_cons, also_nil, reduceCtorEq, if_false, Nat.zero_add] using hk)).2
    simpa only [also_cons, also_nil, reduceCtorEq, if_false, Nat.zero_add] using hin
  refine h.count hc rfl ?_ ?_ (fun i hi => ?_) (fun hpos => ?_) (fun _ hk => htable hk)
    (fun j => ?_) (fun k hk => ?_) (fun k i hk => ?_) hreviving (fun i hi => ?_) (fun j i hi => ?_)
    fun j hi => ?_
  all_goals simp only [also_cons, also_nil, reduceCtorEq, if_false, if_true, Nat.zero_add,
    IdentityRole.gone.injEq] at *
  · exact hrefs
  · split_ifs at hfreed ⊢
    · omega
    · omega
  · rw [if_neg (Ne.symm hi), Nat.zero_add]
    exact ⟨trivial, rfl, fun _ => trivial⟩
  · exact hpos
  · exact hlock j
  · exact hk
  · exact hk
  · exact hi
  · exact hi
  · exact .inl hi

/-- Grants are not counted. -/
theorem Ledger.grant_iff {ticket : ℕ} :
    Ledger cores map locked (also [.granting id ticket] n) ↔ Ledger cores map locked n := by
  have hsame {ρ : IdentityRole} (hρ : .granting id ticket ≠ ρ) :
      also [.granting id ticket] n ρ = n ρ := by
    rw [also_cons, if_neg hρ, Nat.zero_add, also_nil]
  have hback {ρ : IdentityRole} (hρ : .granting id ticket ≠ ρ) :
      n ρ = also [.granting id ticket] n ρ := (hsame hρ).symm
  constructor
  · intro h
    exact h.move (fun i => hback (by simp)) (fun i => hback (by simp)) (fun j i => hback (by simp))
      (fun j => (hback (by simp)).trans (h.lock j))
      (fun k hk => h.looking k (hk.trans_eq (hback (by simp))))
      (fun k i hk => h.reviving k i (hk.trans_eq (hback (by simp))))
      (fun i hi => h.dropping i (hi.trans_eq (hback (by simp))))
      fun j i hi => h.lasting j i (.inl (hi.trans_eq (hback (by simp))))
  · intro h
    exact h.move (fun i => hsame (by simp)) (fun i => hsame (by simp)) (fun j i => hsame (by simp))
      (fun j => (hsame (by simp)).trans (h.lock j))
      (fun k hk => h.looking k (hk.trans_eq (hsame (by simp))))
      (fun k i hk => h.reviving k i (hk.trans_eq (hsame (by simp))))
      (fun i hi => h.dropping i (hi.trans_eq (hsame (by simp))))
      fun j i hi => h.lasting j i (.inl (hi.trans_eq (hsame (by simp))))

end Ledger

/-! ### The steps of the registry -/

namespace Registry

variable {g g' : Registry} {fs : Multiset IdentityFrame} {f : IdentityFrame}
  {new : List IdentityFrame} {n : IdentityRole → ℕ} {choice : Bool} {id : ℕ} {r : Identity}

theorem of_alive (h : g.alive id = some r) : g.records[id]? = some r ∧ r.freed = 0 := by
  obtain ⟨r', hr', hif⟩ := Option.bind_eq_some_iff.mp h
  split_ifs at hif with hfreed
  cases hif
  exact ⟨hr', hfreed⟩

theorem core_of_alive (h : g.alive id = some r) :
    (g.records.map Identity.core)[id]? = some r.core := by
  rw [List.getElem?_map, (of_alive h).1, Option.map_some]

theorem exclusive (g : Registry) (fs : Multiset IdentityFrame) :
    Exclusive (also (g.references.map .ref) (tally roles fs)) := by
  have hnot {ρ : IdentityRole} (hρ : ∀ i, ρ ≠ .ref i) : (g.references.map .ref).count ρ = 0 := by
    refine List.count_eq_zero.mpr fun hmem => ?_
    obtain ⟨i, -, hi⟩ := List.mem_map.mp hmem
    exact hρ i hi.symm
  refine ⟨fun j id => ?_, fun key id => ?_⟩
  · rw [also, also, hnot (by simp), hnot (by simp), Nat.zero_add, Nat.zero_add]
    refine tally_le_tally roles (fun f => ?_) fs
    cases f with
    | remove j' id' =>
      simp only [roles, List.count_cons, List.count_nil, beq_iff_eq, reduceCtorEq, if_false,
        IdentityRole.lock.injEq, IdentityRole.removing.injEq]
      split_ifs with h₁ h₂
      · exact le_rfl
      · exact absurd h₁.1 h₂
      · exact Nat.zero_le _
      · exact le_rfl
    | unlock j' got => cases got <;> simp [roles]
    | _ => simp [roles]
  · rw [also, also, hnot (by simp), hnot (by simp), Nat.zero_add, Nat.zero_add]
    refine tally_le_tally roles (fun f => ?_) fs
    cases f with
    | revive key' id' =>
      simp only [roles, List.count_cons, List.count_nil, beq_iff_eq, reduceCtorEq, if_false,
        IdentityRole.lock.injEq, IdentityRole.reviving.injEq]
      split_ifs with h₁ h₂
      · exact le_rfl
      · exact absurd (congrArg stripe h₁.1) h₂
      · exact Nat.zero_le _
      · exact le_rfl
    | unlock j' got => cases got <;> simp [roles]
    | _ => simp [roles]

theorem map_core_set (r : Identity) : (g.put id r).records.map Identity.core =
    (g.records.map Identity.core).set id r.core := List.map_set

theorem map_core_grant (id ticket : ℕ) :
    (g.records.modify id fun r => { r with granted := r.granted ++ [ticket] }).map Identity.core =
      g.records.map Identity.core := by
  refine List.ext_getElem? fun i => ?_
  rw [List.getElem?_map, List.getElem?_map, List.getElem?_modify]
  cases g.records[i]? with
  | none => rfl
  | some r => by_cases h : id = i <;> simp [h, Identity.core]

/-- What a step does to the counts. -/
theorem run_ledger (h : Ledger (g.records.map Identity.core) g.map g.locked
      (also (roles f) (also (g.references.map .ref) n)))
    (hx : Exclusive (also (g.references.map .ref) n)) (hrun : g.run choice f = some (g', new))
    (hsmall : ∀ id, id < g'.records.length →
      also (new.flatMap roles) (also (g'.references.map .ref) n) (.ref id) < u32) :
    Ledger (g'.records.map Identity.core) g'.map g'.locked
      (also (new.flatMap roles) (also (g'.references.map .ref) n)) := by
  have hlength : (g.records.map Identity.core).length = g.records.length := List.length_map _
  cases f with
  | retain key =>
    rw [roles, also_nil] at h
    rw [run.eq_def] at hrun
    dsimp only at hrun
    split_ifs at hrun with hkind hchoice hlocked
    · cases hrun
      have hnew := h.create_registration hkind
      rw [hlength] at hnew
      rw [List.flatMap_nil, also_nil, List.map_append, also_append, also_comm]
      refine (congrArg (Ledger · _ _ _) ?_).mpr hnew
      exact List.map_append
    · cases hrun
      rw [List.flatMap_nil, also_nil]
      exact h
    · cases hrun
      rw [List.flatMap_singleton, roles]
      refine h.retain (Bool.eq_false_of_not_eq_true hlocked) ?_
      cases hk : key.kind with
      | context => rfl
      | registration => exact absurd hk hkind
  | lookup key =>
    rw [run.eq_def] at hrun
    dsimp only at hrun
    split at hrun
    next id hmap =>
      cases hrun
      rw [List.flatMap_singleton]
      exact h.lookup_found hx hmap
    next hmap =>
      split_ifs at hrun
      · cases hrun
        rw [List.flatMap_singleton]
        have hnew := h.lookup_create hmap
        rw [hlength] at hnew
        refine (congrArg (Ledger · _ _ _) ?_).mpr hnew
        exact List.map_append
      · cases hrun
        rw [List.flatMap_singleton]
        exact h.lookup_missing
  | revive key id =>
    obtain ⟨r, hr, heq⟩ := Option.map_eq_some_iff.mp hrun
    cases heq
    rw [List.flatMap_singleton, map_core_set] at *
    obtain ⟨hlt, -⟩ := List.getElem?_eq_some_iff.mp (of_alive hr).1
    exact h.revive (core_of_alive hr) (hsmall id ((List.length_set ..).symm ▸ hlt))
  | unlock j got =>
    cases hrun
    rw [List.flatMap_nil, also_nil, List.map_append, also_append, also_comm]
    have hfree := h.unlock
    cases got with
    | none => exact hfree
    | some id => exact hfree
  | release id =>
    obtain ⟨r, hr, heq⟩ := Option.map_eq_some_iff.mp hrun
    split_ifs at heq with hkind hone
    · cases heq
      rw [List.flatMap_singleton, map_core_set]
      have hnew := h.release_registration (core_of_alive hr) hkind
      rw [if_pos (show r.core.refs = 1 from hone)] at hnew
      exact hnew
    · cases heq
      rw [List.flatMap_nil, map_core_set]
      have hnew := h.release_registration (core_of_alive hr) hkind
      rw [if_neg (show ¬ r.core.refs = 1 from hone)] at hnew
      exact hnew
    · cases heq
      rw [List.flatMap_singleton]
      refine h.release_context (core_of_alive hr) ?_
      cases hk : r.key.kind with
      | context => exact hk
      | registration => exact absurd hk hkind
  | drop id m =>
    obtain ⟨r, hr, heq⟩ := Option.bind_eq_some_iff.mp hrun
    split_ifs at heq with hone hswap hlocked
    · cases heq
      obtain ⟨rfl, -⟩ := hswap
      rw [List.flatMap_nil, also_nil, map_core_set]
      exact h.drop (core_of_alive hr) hone
    · cases heq
      rw [List.flatMap_singleton]
      exact h
    · cases heq
      rw [List.flatMap_singleton]
      exact h.drop_lock (core_of_alive hr) (Bool.eq_false_of_not_eq_true hlocked)
  | last j id =>
    obtain ⟨r, hr, heq⟩ := Option.map_eq_some_iff.mp hrun
    have hnew := h.last hx (core_of_alive hr)
    split_ifs at heq with hone
    · cases heq
      rw [List.flatMap_singleton, map_core_set]
      rw [if_pos (show r.core.refs = 1 from hone)] at hnew
      exact hnew
    · cases heq
      rw [List.flatMap_singleton, map_core_set]
      rw [if_neg (show ¬ r.core.refs = 1 from hone)] at hnew
      exact hnew
  | remove j id =>
    obtain ⟨r, hr, heq⟩ := Option.map_eq_some_iff.mp hrun
    cases heq
    exact h.remove hx (core_of_alive hr)
  | destroy id =>
    obtain ⟨r, hr, heq⟩ := Option.bind_eq_some_iff.mp hrun
    split_ifs at heq
    cases heq
    rw [List.flatMap_nil, also_nil, map_core_set]
    exact h.destroy (core_of_alive hr)
  | grant id ticket =>
    cases hrun
    rw [List.flatMap_nil, also_nil, map_core_grant]
    exact Ledger.grant_iff.mp h

end Registry

namespace Registry

variable {g g' : Registry} {f : IdentityFrame} {new : List IdentityFrame} {choice : Bool}
  {id i : ℕ} {r r' x : Identity}

theorem length_put (g : Registry) (id : ℕ) (r : Identity) :
    (g.put id r).records.length = g.records.length := List.length_set

theorem getElem?_put (hr : g.records[id]? = some r) (i : ℕ) :
    (g.put id r').records[i]? = if i = id then some r' else g.records[i]? := by
  obtain ⟨hlt, -⟩ := List.getElem?_eq_some_iff.mp hr
  unfold put
  dsimp only
  split_ifs with hi
  · rw [hi, List.getElem?_set_self hlt]
  · exact List.getElem?_set_ne (Ne.symm hi)

/-- The records as they were but for the counts, and new ones. -/
def Recounted (g g' : Registry) : Prop :=
  g.records.length ≤ g'.records.length ∧ ∀ i x, g'.records[i]? = some x →
    (∃ r refs freed, g.records[i]? = some r ∧ x = { r with refs := refs, freed := freed }) ∨
      g.records.length ≤ i ∧ ∃ key, x = { key := key }

theorem recounted_same (h : g'.records = g.records) : Recounted g g' := by
  refine ⟨h ▸ le_rfl, fun i x hx => .inl ⟨x, x.refs, x.freed, h ▸ hx, rfl⟩⟩

theorem recounted_put (hr : g.alive id = some r) (refs freed : ℕ) :
    Recounted g (g.put id { r with refs := refs, freed := freed }) := by
  have hr := (of_alive hr).1
  refine ⟨(List.length_set ..).ge, fun i x hx => .inl ?_⟩
  rw [getElem?_put hr] at hx
  split_ifs at hx with hi
  · cases hx
    exact ⟨r, refs, freed, hi ▸ hr, rfl⟩
  · exact ⟨x, x.refs, x.freed, hx, rfl⟩

theorem recounted_create (key : Key) (h : g'.records = g.records ++ [{ key := key }]) :
    Recounted g g' := by
  refine ⟨?_, fun i x hx => ?_⟩
  · rw [h, List.length_append]
    exact Nat.le_add_right _ _
  · rw [h] at hx
    rcases Nat.lt_or_ge i g.records.length with hlt | hge
    · rw [List.getElem?_append_left hlt] at hx
      exact .inl ⟨x, x.refs, x.freed, hx, rfl⟩
    · refine .inr ⟨hge, key, ?_⟩
      rw [List.getElem?_append_right hge] at hx
      exact List.mem_singleton.mp (List.mem_of_getElem? hx)

theorem run_recounted (hf : ∀ id ticket, f ≠ .grant id ticket)
    (hrun : g.run choice f = some (g', new)) :
    Recounted g g' ∧ (∃ more, g'.references = g.references ++ more) ∧
      ∀ id ticket, (new.flatMap roles).count (.granting id ticket) = 0 := by
  cases f with
  | retain key =>
    rw [run.eq_def] at hrun
    dsimp only at hrun
    split_ifs at hrun
    · cases hrun
      exact ⟨recounted_create key rfl, ⟨_, rfl⟩, fun _ _ => rfl⟩
    · cases hrun
      exact ⟨recounted_same rfl, ⟨[], (List.append_nil _).symm⟩, fun _ _ => rfl⟩
    · cases hrun
      exact ⟨recounted_same rfl, ⟨[], (List.append_nil _).symm⟩, fun _ _ => rfl⟩
  | lookup key =>
    rw [run.eq_def] at hrun
    dsimp only at hrun
    split at hrun
    · cases hrun
      exact ⟨recounted_same rfl, ⟨[], (List.append_nil _).symm⟩, fun _ _ => rfl⟩
    · split_ifs at hrun
      · cases hrun
        exact ⟨recounted_create key rfl, ⟨[], (List.append_nil _).symm⟩, fun _ _ => rfl⟩
      · cases hrun
        exact ⟨recounted_same rfl, ⟨[], (List.append_nil _).symm⟩, fun _ _ => rfl⟩
  | revive key id =>
    obtain ⟨r, hr, heq⟩ := Option.map_eq_some_iff.mp hrun
    cases heq
    exact ⟨recounted_put hr _ _, ⟨[], (List.append_nil _).symm⟩, fun _ _ => rfl⟩
  | unlock j got =>
    cases hrun
    exact ⟨recounted_same rfl, ⟨_, rfl⟩, fun _ _ => rfl⟩
  | release id =>
    obtain ⟨r, hr, heq⟩ := Option.map_eq_some_iff.mp hrun
    split_ifs at heq
    · cases heq
      exact ⟨recounted_put hr _ _, ⟨[], (List.append_nil _).symm⟩, fun _ _ => rfl⟩
    · cases heq
      exact ⟨recounted_put hr _ _, ⟨[], (List.append_nil _).symm⟩, fun _ _ => rfl⟩
    · cases heq
      exact ⟨recounted_same rfl, ⟨[], (List.append_nil _).symm⟩, fun _ _ => rfl⟩
  | drop id m =>
    obtain ⟨r, hr, heq⟩ := Option.bind_eq_some_iff.mp hrun
    split_ifs at heq
    · cases heq
      exact ⟨recounted_put hr _ _, ⟨[], (List.append_nil _).symm⟩, fun _ _ => rfl⟩
    · cases heq
      exact ⟨recounted_same rfl, ⟨[], (List.append_nil _).symm⟩, fun _ _ => rfl⟩
    · cases heq
      exact ⟨recounted_same rfl, ⟨[], (List.append_nil _).symm⟩, fun _ _ => rfl⟩
  | last j id =>
    obtain ⟨r, hr, heq⟩ := Option.map_eq_some_iff.mp hrun
    split_ifs at heq
    · cases heq
      exact ⟨recounted_put hr _ _, ⟨[], (List.append_nil _).symm⟩, fun _ _ => rfl⟩
    · cases heq
      exact ⟨recounted_put hr _ _, ⟨[], (List.append_nil _).symm⟩, fun _ _ => rfl⟩
  | remove j id =>
    obtain ⟨r, hr, heq⟩ := Option.map_eq_some_iff.mp hrun
    cases heq
    exact ⟨recounted_same rfl, ⟨[], (List.append_nil _).symm⟩, fun _ _ => rfl⟩
  | destroy id =>
    obtain ⟨r, hr, heq⟩ := Option.bind_eq_some_iff.mp hrun
    split_ifs at heq
    cases heq
    exact ⟨recounted_put hr _ _, ⟨[], (List.append_nil _).symm⟩, fun _ _ => rfl⟩
  | grant id ticket => exact absurd rfl (hf id ticket)

end Registry

namespace Identity

variable (r : Identity)

theorem tryAcquire_counts (w : ℕ) :
    (r.tryAcquire w).1.core = r.core ∧ (r.tryAcquire w).1.needs ≤ r.needs + 1 := by
  unfold tryAcquire
  split_ifs
  · refine ⟨rfl, ?_⟩
    unfold needs
    dsimp only
    split_ifs <;> omega
  · refine ⟨rfl, ?_⟩
    unfold needs
    dsimp only
    rw [List.length_append, List.length_singleton]
    omega

theorem tryTake_counts : r.tryTake.1.core = r.core ∧ r.tryTake.1.needs ≤ r.needs + 1 := by
  unfold tryTake
  split_ifs
  · exact ⟨rfl, Nat.le_succ _⟩
  · refine ⟨rfl, ?_⟩
    unfold needs
    dsimp only
    split_ifs <;> omega

theorem cancel_counts (w : ℕ) :
    (r.cancel w).1.core = r.core ∧ (r.cancel w).1.needs ≤ r.needs := by
  unfold cancel
  split
  · exact ⟨rfl, le_rfl⟩
  next x _ => exact ⟨rfl, Nat.add_le_add_right (List.erase_sublist (a := x)).length_le _⟩

end Identity

end Zzdds.Util
