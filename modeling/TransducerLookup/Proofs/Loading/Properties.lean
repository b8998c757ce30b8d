import TransducerLookup.Proofs.Loading.Image

/-!
# Keys without a value

A list of properties may end in a key that has no value. Alone at the end it is
dropped. With a NUL of its own it is not: the empty field behind that NUL is
taken for its value. So a body cannot say whether the last value is empty or
missing.
-/

namespace TransducerLookup.Properties

open Image (pairBytes)

theorem ofBytes_of_notMem {bytes : List UInt8} (h : 0 ∉ bytes) : ofBytes bytes = [] := by
  rw [ofBytes, List.splitOn_eq_singleton h]
  rfl

theorem ofBytes_concat_zero {key : List UInt8} (hkey : key ≠ []) (h : 0 ∉ key) :
    ofBytes (key ++ [0]) = [(Utf8.decodeLossy key, "")] := by
  have hempty : Utf8.decodeLossy [] = "" := Utf8.decodeLossy_encode ""
  rw [ofBytes, List.splitOn_append_cons_self_of_not_mem h, List.splitOn_nil, List.map_cons,
    List.map_cons, hempty, List.map_nil, ofFields, if_neg (Utf8.decodeLossy_ne_empty hkey)]
  rfl

/-- The properties that a body spells, of which each key is there with its value. -/
def Listed (pairs : Properties) : Prop :=
  ∀ pair ∈ pairs, pair.1 ≠ "" ∧ 0 ∉ Utf8.encode pair.1 ∧ 0 ∉ Utf8.encode pair.2

/-- Behind listed pairs a last key is dropped if the body ends with it, and has the empty value if
a NUL follows it. -/
theorem ofBytes_dangling {pairs : Properties} (hpairs : Listed pairs) {key : List UInt8}
    (hkey : key ≠ []) (h : 0 ∉ key) :
    ofBytes (pairs.flatMap pairBytes ++ key) = pairs ∧
      ofBytes (pairs.flatMap pairBytes ++ (key ++ [0])) =
        pairs ++ [(Utf8.decodeLossy key, "")] := by
  constructor
  · rw [Image.ofBytes_flatMap_pairBytes_append hpairs, ofBytes_of_notMem h, List.append_nil]
  · rw [Image.ofBytes_flatMap_pairBytes_append hpairs, ofBytes_concat_zero hkey h]

/-- A version, and `name` without a value. -/
theorem ofBytes_dangling_version :
    Listed [("version", "3.3")] ∧ ([110, 97, 109, 101] : List UInt8) ≠ [] ∧
      0 ∉ ([110, 97, 109, 101] : List UInt8) ∧
      ofBytes (pairBytes ("version", "3.3") ++ [110, 97, 109, 101]) = [("version", "3.3")] ∧
      ofBytes (pairBytes ("version", "3.3") ++ [110, 97, 109, 101, 0]) =
        [("version", "3.3"), ("name", "")] := by
  have hlisted : Listed [("version", "3.3")] := by
    unfold Listed
    decide +kernel
  have hkey : ([110, 97, 109, 101] : List UInt8) ≠ [] := by decide
  have hzero : 0 ∉ ([110, 97, 109, 101] : List UInt8) := by decide
  have hname : Utf8.decodeLossy [110, 97, 109, 101] = "name" := Utf8.decodeLossy_encode "name"
  obtain ⟨hbare, hterminated⟩ := ofBytes_dangling hlisted hkey hzero
  rw [hname] at hterminated
  exact ⟨hlisted, hkey, hzero, hbare, hterminated⟩

/-- A key that a NUL ends is not dropped. -/
theorem not_ofBytes_terminated_eq : ¬ ∀ (pairs : Properties) (key : List UInt8), Listed pairs →
    key ≠ [] → 0 ∉ key → ofBytes (pairs.flatMap pairBytes ++ key) = pairs ∧
      ofBytes (pairs.flatMap pairBytes ++ (key ++ [0])) = pairs := by
  intro h
  obtain ⟨-, hterminated⟩ := h [] [110] nofun (by decide) (by decide)
  have hkept : ofBytes [110, 0] = [("n", "")] := by decide +kernel
  rw [show [].flatMap pairBytes ++ ([110] ++ [0]) = [110, 0] from rfl, hkept] at hterminated
  cases hterminated

end TransducerLookup.Properties
