import GraphingCalculator.Cache.Basic

/-!
A library of caches that are lists of their entries, the one used last in front.
-/

namespace GraphingCalculator

/-- Entries, at most `capacity` of them and each key once. -/
structure RecentList (K V : Type) where
  capacity : Nat
  entries : List (K × V)
  nodup_keys : (entries.map (·.1)).Nodup
  length_le : entries.length ≤ capacity

namespace RecentList
variable {K V : Type}

/-- A list that holds nothing yet. -/
def empty (capacity : Nat) : RecentList K V := ⟨capacity, [], .nil, Nat.zero_le _⟩

/-- The greatest capacity of a list. A hash table for more entries would need more bytes than there are
addresses. -/
def largestCapacity : Nat := 252201579132747776

variable [DecidableEq K]

theorem nodup_keys_front {entries : List (K × V)} (nodup : (entries.map (·.1)).Nodup) (key : K)
    (value : V) (capacity : Nat) :
    ((((key, value) :: entries.filter (·.1 ≠ key)).take capacity).map (·.1)).Nodup := by
  have whole : (((key, value) :: entries.filter (·.1 ≠ key)).map (·.1)).Nodup := by
    refine List.nodup_cons.mpr ⟨?_, nodup.sublist (List.filter_sublist.map _)⟩
    simp
  exact whole.sublist ((List.take_sublist _ _).map _)

/-- Puts a key to the front, whether it was there or not. -/
def front (list : RecentList K V) (key : K) (value : V) : RecentList K V where
  capacity := list.capacity
  entries := ((key, value) :: list.entries.filter (·.1 ≠ key)).take list.capacity
  nodup_keys := nodup_keys_front list.nodup_keys key value list.capacity
  length_le := List.length_take_le _ _

/-- Puts a key to the front if it is there. -/
def get (list : RecentList K V) (key : K) : Option V × RecentList K V :=
  match list.entries.find? (·.1 = key) with
  | some entry => (some entry.2, list.front key entry.2)
  | none => (none, list)

section
variable {list : RecentList K V} {key : K} {value : V}

theorem get_of_notMem (missing : key ∉ list.entries.map (·.1)) : list.get key = (none, list) := by
  have nothing : list.entries.find? (·.1 = key) = none := by
    refine List.find?_eq_none.mpr fun entry member same => missing ?_
    exact List.mem_map.mpr ⟨entry, member, by simpa using same⟩
  rw [get, nothing]

theorem entries_front (member : (key, value) ∈ list.entries) :
    (list.front key value).entries = (key, value) :: list.entries.filter (·.1 ≠ key) := by
  have fewer : (list.entries.filter (·.1 ≠ key)).length < list.entries.length :=
    List.length_filter_lt_length_iff_exists.mpr ⟨_, member, by simp⟩
  exact List.take_of_length_le (Nat.le_trans fewer list.length_le)

end

/-- The library of these lists. -/
def library (K V : Type) [DecidableEq K] : LruLibrary K V where
  Cache := RecentList K V
  new? room := if room ≤ largestCapacity then some (empty room) else none
  get := get
  put := front
  clear list := empty list.capacity
  length list := list.entries.length
  capacity := capacity
  entries := entries
  nodup_keys := nodup_keys
  length_le := length_le
  length_eq _ := rfl
  entries_new opens := by
    split at opens
    · cases opens
      rfl
    · cases opens
  capacity_new opens := by
    split at opens
    · cases opens
      rfl
    · cases opens
  get_hit member := by rw [get, LruLibrary.find?_of_mem (nodup_keys _) member]
  get_miss missing := by rw [get_of_notMem missing]
  entries_get_hit member := by
    rw [get, LruLibrary.find?_of_mem (nodup_keys _) member]
    exact entries_front member
  entries_get_miss missing := by rw [get_of_notMem missing]
  entries_put _ _ _ := rfl
  entries_clear _ := rfl
  capacity_get list key := by
    unfold get
    split <;> rfl
  capacity_put _ _ _ := rfl
  capacity_clear _ := rfl

end RecentList

end GraphingCalculator
