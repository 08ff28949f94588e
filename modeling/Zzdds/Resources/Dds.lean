import Mathlib.Data.List.Nodup
import Zzdds.Resources.Plan

/-! # DDS as an owner of resources sees it

What DDS has created for an owner and not yet deleted.  An owner calls DDS with a request, and DDS
replies when it likes: a creation gives nil or a handle, a deletion succeeds or fails.  Between the
two, listeners may call the owner again.  Handles are numbers, in the order DDS gave them out. -/

namespace Zzdds.Resources

inductive Kind
  | participant | topic | publisher | subscriber | writer | reader
deriving DecidableEq, Repr

/-- What an entity is created with: the entity it is created under and, for a topic, its name, for a
writer or a reader, its topic. -/
structure Creation where
  kind : Kind
  parent : Option ℕ := none
  topicName : Option Name := none
  topic : Option ℕ := none
deriving DecidableEq, Repr

/-- An entity that DDS holds. -/
structure Live extends Creation where
  handle : ℕ
deriving DecidableEq, Repr

/-- What DDS holds, how many handles it has given out, and whose deletion it has reported. -/
structure Dds where
  handles : ℕ := 0
  live : List Live := []
  deleted : List ℕ := []
deriving DecidableEq, Repr

inductive Request
  | create (creation : Creation)
  | register (typeName : Name)
  | delete (on : Option ℕ) (handle : ℕ)
deriving DecidableEq, Repr

/-- What DDS, or a callback that registers a type, does about a request. -/
inductive Reply
  | nil
  | entity
  | ok
  | error (code : ℕ)
deriving DecidableEq, Repr

inductive Answer
  | nil
  | created (handle : ℕ)
  | ok
  | failed (code : ℕ)
deriving DecidableEq, Repr

namespace Dds

variable (d : Dds)

/-- The topic of a participant with a name. -/
def lookupTopicdescription (dp : ℕ) (name : Name) : Option ℕ :=
  (d.live.find? fun x => x.parent = some dp ∧ x.topicName = some name).map Live.handle

/-- The topic that there already is in place of a new one. -/
def existing (c : Creation) : Option ℕ :=
  c.parent.bind fun dp => c.topicName.bind fun name => d.lookupTopicdescription dp name

def add (c : Creation) : Dds :=
  { d with
    handles := d.handles + 1
    live := d.live ++ [{ toCreation := c, handle := d.handles }] }

def create (c : Creation) : Dds × ℕ :=
  match d.existing c with
  | some h => (d, h)
  | none => (d.add c, d.handles)

def delete (h : ℕ) : Dds :=
  { d with live := d.live.filter fun x => x.handle ≠ h, deleted := d.deleted ++ [h] }

/-- What a reply does, and what the caller gets to see of it; none if it is no reply to the
request. -/
def answer : Request → Reply → Option (Dds × Answer)
  | .create _, .nil => some (d, .nil)
  | .create c, .entity => some ((d.create c).1, .created (d.create c).2)
  | .register _, .ok => some (d, .ok)
  | .register _, .error code => some (d, .failed code)
  | .delete _ h, .ok => some (d.delete h, .ok)
  | .delete _ _, .error code => some (d, .failed code)
  | _, _ => none

variable {d} {c : Creation} {x : Live} {h : ℕ}

theorem create_of_new (hnew : d.existing c = none) : d.create c = (d.add c, d.handles) := by
  rw [create, hnew]

theorem mem_add :
    x ∈ (d.add c).live ↔ x ∈ d.live ∨ x = { toCreation := c, handle := d.handles } := by
  rw [add, List.mem_append, List.mem_singleton]

theorem mem_delete : x ∈ (d.delete h).live ↔ x ∈ d.live ∧ x.handle ≠ h := by
  rw [delete, List.mem_filter, decide_eq_true_iff]

/-- Every handle is that of one entity or has been deleted once, and the topics of a participant
have different names. -/
structure Sound (d : Dds) : Prop where
  apart : (d.live.map Live.handle ++ d.deleted).Nodup
  all : ∀ h, h < d.handles ↔ h ∈ d.live.map Live.handle ∨ h ∈ d.deleted
  names : ∀ x ∈ d.live, ∀ y ∈ d.live, ∀ dp name, x.parent = some dp → y.parent = some dp →
    x.topicName = some name → y.topicName = some name → x.handle = y.handle

namespace Sound

variable {y : Live} {dp : ℕ} {name : Name}

theorem handle_lt (hs : d.Sound) (hx : x ∈ d.live) : x.handle < d.handles :=
  (hs.all _).mpr (.inl (List.mem_map_of_mem hx))

theorem lookup_eq (hs : d.Sound) (hx : x ∈ d.live) (hdp : x.parent = some dp)
    (hname : x.topicName = some name) : d.lookupTopicdescription dp name = some x.handle := by
  unfold lookupTopicdescription
  cases hfind : d.live.find? fun y => y.parent = some dp ∧ y.topicName = some name with
  | none =>
    exact absurd (decide_eq_true (And.intro hdp hname)) (List.find?_eq_none.mp hfind x hx)
  | some y =>
    obtain ⟨hydp, hyname⟩ : y.parent = some dp ∧ y.topicName = some name := by
      simpa using List.find?_some hfind
    rw [Option.map_some, hs.names x hx y (List.mem_of_find?_eq_some hfind) dp name hdp hydp hname
      hyname]

/-- A topic that there already is has the name and the participant of the new one. -/
theorem of_existing (he : d.existing c = some h) :
    ∃ x ∈ d.live, ∃ dp name, c.parent = some dp ∧ c.topicName = some name ∧ x.parent = some dp ∧
      x.topicName = some name := by
  obtain ⟨dp, hdp, he⟩ := Option.bind_eq_some_iff.mp he
  obtain ⟨name, hname, he⟩ := Option.bind_eq_some_iff.mp he
  obtain ⟨x, hfind, -⟩ := Option.map_eq_some_iff.mp he
  obtain ⟨hxdp, hxname⟩ : x.parent = some dp ∧ x.topicName = some name := by
    simpa using List.find?_some hfind
  exact ⟨x, List.mem_of_find?_eq_some hfind, dp, name, hdp, hname, hxdp, hxname⟩

theorem add (hs : d.Sound) (hnew : d.existing c = none) : (d.add c).Sound := by
  have hnot : d.handles ∉ d.live.map Live.handle ++ d.deleted := fun hmem =>
    lt_irrefl _ ((hs.all _).mpr (List.mem_append.mp hmem))
  have hother : ∀ x ∈ d.live, ∀ dp name, x.parent = some dp → c.parent = some dp →
      x.topicName = some name → c.topicName ≠ some name := by
    intro x hx dp name hdp hcdp hname hcname
    rw [existing, hcdp, hcname, Option.bind_some, Option.bind_some,
      hs.lookup_eq hx hdp hname] at hnew
    cases hnew
  unfold Dds.add
  refine ⟨?_, fun h => ?_, ?_⟩
  · rw [List.map_append, List.map_singleton, List.append_assoc]
    exact List.nodup_middle.mpr (List.nodup_cons.mpr ⟨hnot, hs.apart⟩)
  · rw [List.map_append, List.map_singleton, List.mem_append, List.mem_singleton, or_right_comm,
      ← hs.all h]
    exact Nat.lt_succ_iff_lt_or_eq
  · intro x hx y hy dp name hxdp hydp hxname hyname
    rcases List.mem_append.mp hx with hx | hx <;> rcases List.mem_append.mp hy with hy | hy
    · exact hs.names x hx y hy dp name hxdp hydp hxname hyname
    · cases List.mem_singleton.mp hy
      exact absurd hyname (hother x hx dp name hxdp hydp hxname)
    · cases List.mem_singleton.mp hx
      exact absurd hxname (hother y hy dp name hydp hxdp hyname)
    · cases List.mem_singleton.mp hx
      cases List.mem_singleton.mp hy
      rfl

theorem filter_handle (hs : d.Sound) (hx : x ∈ d.live) :
    (d.live.filter fun y => decide (y.handle = x.handle)).map Live.handle = [x.handle] := by
  have hmap : (d.live.filter fun y => decide (y.handle = x.handle)).map Live.handle =
      (d.live.map Live.handle).filter (· == x.handle) := by
    rw [List.filter_map]
    rfl
  rw [hmap, List.filter_beq, List.count_eq_one_of_mem (List.Nodup.of_append_left hs.apart)
    (List.mem_map_of_mem hx), List.replicate_one]

theorem delete (hs : d.Sound) (hx : x ∈ d.live) : (d.delete x.handle).Sound := by
  have hparts := (List.filter_append_perm (fun y => decide (y.handle = x.handle)) d.live).map
    Live.handle
  rw [List.map_append, hs.filter_handle hx] at hparts
  have hperm : ((d.delete x.handle).live.map Live.handle ++ (d.delete x.handle).deleted).Perm
      (d.live.map Live.handle ++ d.deleted) := by
    refine .trans ?_ (hparts.append_right _)
    simp only [Dds.delete, decide_not]
    rw [← List.append_assoc, List.append_assoc [x.handle]]
    exact List.perm_append_comm
  refine ⟨hperm.nodup_iff.mpr hs.apart, fun h => ?_, fun y hy z hz => ?_⟩
  · rw [← List.mem_append, hperm.mem_iff, List.mem_append]
    exact hs.all h
  · exact hs.names y (List.mem_of_mem_filter hy) z (List.mem_of_mem_filter hz)

theorem length_delete (hs : d.Sound) (hx : x ∈ d.live) :
    (d.delete x.handle).live.length + 1 = d.live.length := by
  have hone := congrArg List.length (hs.filter_handle hx)
  rw [List.length_map, List.length_singleton] at hone
  have hsum := List.length_eq_length_filter_add (l := d.live)
    fun y => decide (y.handle = x.handle)
  rw [hone, Nat.add_comm] at hsum
  simpa only [Dds.delete, decide_not] using hsum.symm

end Sound

end Dds

end Zzdds.Resources
