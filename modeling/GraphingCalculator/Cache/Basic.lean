/-!
Caches of limited size, as a library provides them. A cache holds values by their keys; when there is
no room for another key, the one that has not been used for longest drops out.
-/

namespace GraphingCalculator

/-- A library of caches, and what it says of them. The entries of a cache are listed with the one used
last in front. To look a key up is to use it, and to put a value there is as well. -/
structure LruLibrary (K V : Type) [DecidableEq K] where
  /-- The caches. -/
  Cache : Type
  /-- A new cache for this many entries; one that would be too large is refused. -/
  new? : Nat → Option Cache
  /-- The value of a key. -/
  get : Cache → K → Option V × Cache
  /-- Gives a key this value. -/
  put : Cache → K → V → Cache
  /-- Removes all entries. -/
  clear : Cache → Cache
  /-- The number of entries. -/
  length : Cache → Nat
  /-- How many entries there is room for. -/
  capacity : Cache → Nat
  /-- The entries, the one used last in front. -/
  entries : Cache → List (K × V)
  nodup_keys (cache : Cache) : ((entries cache).map (·.1)).Nodup
  length_le (cache : Cache) : (entries cache).length ≤ capacity cache
  length_eq (cache : Cache) : length cache = (entries cache).length
  entries_new {room : Nat} {cache : Cache} : new? room = some cache → entries cache = []
  capacity_new {room : Nat} {cache : Cache} : new? room = some cache → capacity cache = room
  /-- A hit gives the value that the key has. -/
  get_hit {cache : Cache} {key : K} {value : V} :
    (key, value) ∈ entries cache → (get cache key).1 = some value
  get_miss {cache : Cache} {key : K} :
    key ∉ (entries cache).map (·.1) → (get cache key).1 = none
  /-- A hit moves the entry to the front. -/
  entries_get_hit {cache : Cache} {key : K} {value : V} : (key, value) ∈ entries cache →
    entries (get cache key).2 = (key, value) :: (entries cache).filter (·.1 ≠ key)
  entries_get_miss {cache : Cache} {key : K} :
    key ∉ (entries cache).map (·.1) → entries (get cache key).2 = entries cache
  /-- A new value stands in front, and what there is no room for is evicted from the end. -/
  entries_put (cache : Cache) (key : K) (value : V) : entries (put cache key value) =
    ((key, value) :: (entries cache).filter (·.1 ≠ key)).take (capacity cache)
  entries_clear (cache : Cache) : entries (clear cache) = []
  capacity_get (cache : Cache) (key : K) : capacity (get cache key).2 = capacity cache
  capacity_put (cache : Cache) (key : K) (value : V) : capacity (put cache key value) = capacity cache
  capacity_clear (cache : Cache) : capacity (clear cache) = capacity cache

namespace LruLibrary
variable {K V : Type} [DecidableEq K]

/-- The entry of a key is the one that is found first. -/
theorem find?_of_mem {key : K} {value : V} {entries : List (K × V)} (nodup : (entries.map (·.1)).Nodup)
    (member : (key, value) ∈ entries) : entries.find? (·.1 = key) = some (key, value) := by
  induction entries with
  | nil => cases member
  | cons first rest ih =>
    obtain ⟨fresh, nodup⟩ := List.nodup_cons.mp nodup
    rcases List.mem_cons.mp member with rfl | later
    · exact List.find?_cons_of_pos (by simp)
    · have other : first.1 ≠ key := by
        rintro rfl
        exact fresh (List.mem_map.mpr ⟨_, later, rfl⟩)
      rw [List.find?_cons_of_neg (by simpa using other), ih nodup later]

section
variable {lru : LruLibrary K V} {cache : lru.Cache} {key : K}

/-- A key that is looked up is found and moves to the front, as if its value were put there, or it is not
there. -/
theorem get_cases (cache : lru.Cache) (key : K) :
    (∃ value, (key, value) ∈ lru.entries cache ∧ (lru.get cache key).1 = some value ∧
      lru.entries (lru.get cache key).2 =
        ((key, value) :: (lru.entries cache).filter (·.1 ≠ key)).take (lru.capacity cache)) ∨
    (key ∉ (lru.entries cache).map (·.1) ∧ (lru.get cache key).1 = none ∧
      lru.entries (lru.get cache key).2 = lru.entries cache) := by
  by_cases held : key ∈ (lru.entries cache).map (·.1)
  · obtain ⟨⟨found, value⟩, member, rfl⟩ := List.mem_map.mp held
    have promoted := lru.entries_get_hit member
    -- the entry was there before, so the others still have room
    have fits := lru.length_le (lru.get cache found).2
    rw [promoted, lru.capacity_get] at fits
    exact .inl ⟨value, member, lru.get_hit member, by rw [promoted, List.take_of_length_le fits]⟩
  · exact .inr ⟨held, lru.get_miss held, lru.entries_get_miss held⟩

theorem mem_entries_of_get {entry : K × V} (member : entry ∈ lru.entries (lru.get cache key).2) :
    entry ∈ lru.entries cache := by
  obtain ⟨value, held, -, promoted⟩ | ⟨-, -, same⟩ := get_cases cache key
  · rw [promoted] at member
    rcases List.mem_cons.mp (List.mem_of_mem_take member) with rfl | kept
    · exact held
    · exact (List.mem_filter.mp kept).1
  · rwa [same] at member

theorem mem_entries_of_put {value : V} {entry : K × V}
    (member : entry ∈ lru.entries (lru.put cache key value)) :
    entry = (key, value) ∨ entry ∈ lru.entries cache := by
  rw [lru.entries_put] at member
  exact (List.mem_cons.mp (List.mem_of_mem_take member)).imp_right fun kept => (List.mem_filter.mp kept).1

end

end LruLibrary

end GraphingCalculator
