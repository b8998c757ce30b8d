/-!
# Names and their ids

A name table gives each distinct name an id, in the order in which the names
are first seen and without gaps.
-/

namespace TransducerLookup

structure NameTable where
  /-- The names by id. -/
  names : Array String
  deriving DecidableEq, Repr

namespace NameTable

def empty : NameTable := ⟨#[]⟩

def size (t : NameTable) : Nat := t.names.size

def name? (t : NameTable) (id : Nat) : Option String := t.names[id]?

/-- The id of `name`, which a name not seen before gets now. -/
def intern (t : NameTable) (name : String) : Nat × NameTable :=
  match t.names.findIdx? (· = name) with
  | some id => (id, t)
  | none => (t.size, ⟨t.names.push name⟩)

theorem intern_of_mem {t : NameTable} {name : String} (h : name ∈ t.names) :
    (t.intern name).2 = t := by
  unfold intern
  split
  · rfl
  · next hnone => simpa using Array.findIdx?_eq_none_iff.1 hnone name h

theorem intern_of_notMem {t : NameTable} {name : String} (h : name ∉ t.names) :
    t.intern name = (t.size, ⟨t.names.push name⟩) := by
  unfold intern
  split
  · next hsome =>
    obtain ⟨hlt, heq, -⟩ := Array.findIdx?_eq_some_iff_getElem.1 hsome
    exact absurd (of_decide_eq_true heq ▸ Array.getElem_mem hlt) h
  · rfl

theorem name?_intern (t : NameTable) (name : String) :
    (t.intern name).2.name? (t.intern name).1 = some name := by
  unfold intern
  split
  · next hsome =>
    obtain ⟨hlt, heq, -⟩ := Array.findIdx?_eq_some_iff_getElem.1 hsome
    exact (Array.getElem?_eq_getElem hlt).trans (congrArg some (of_decide_eq_true heq))
  · simp [name?, size]

theorem nodup_intern {t : NameTable} (h : t.names.toList.Nodup) (name : String) :
    (t.intern name).2.names.toList.Nodup := by
  by_cases hmem : name ∈ t.names
  · rwa [intern_of_mem hmem]
  · rw [intern_of_notMem hmem, Array.toList_push]
    refine List.nodup_append.2 ⟨h, List.nodup_cons.2 ⟨List.not_mem_nil, List.nodup_nil⟩, ?_⟩
    intro a ha b hb heq
    rw [List.mem_singleton] at hb
    exact hmem (Array.mem_toList_iff.1 (hb ▸ heq ▸ ha))

end NameTable

end TransducerLookup
