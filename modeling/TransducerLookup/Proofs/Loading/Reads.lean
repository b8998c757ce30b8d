import TransducerLookup.Stream

/-!
# What decoders read

A read on a stream finds its bytes in front or runs into the ending
(`take_cases`, `untilNul_cases`). `Reads d spells` says of a decoder that it
succeeds with `a` on just those streams that have bytes in front that spell `a`,
and takes these bytes and no more. Such a decoder cannot tell what follows the
bytes, and no stream has the spellings of two results in front of it
(`Reads.unique`), so the laws of `Reads` compose without side conditions.
-/

namespace TransducerLookup

theorem append_zero_inj {bytes bytes' rest rest' : List UInt8} (h : 0 ∉ bytes) (h' : 0 ∉ bytes')
    (heq : bytes ++ 0 :: rest = bytes' ++ 0 :: rest') : bytes = bytes' ∧ rest = rest' := by
  have hread : Decoder.untilNul .alphabet (.ofBytes (bytes ++ 0 :: rest)) =
      .ok bytes' (.ofBytes rest') := Decoder.untilNul_of_pending_eq heq h'
  rw [Decoder.untilNul_of_pending_eq rfl h] at hread
  obtain ⟨hbytes, hrest⟩ := EStateM.Result.ok.inj hread
  exact ⟨hbytes, congrArg Stream.pending hrest⟩

namespace Decoder

variable {α β : Type}

section Bind

variable {x y : Decoder α} {s s' : Stream}

theorem bind_of_ok {a : α} (h : x s = .ok a s') (f : α → Decoder β) : (x >>= f) s = f a s' := by
  show EStateM.bind x f s = f a s'
  unfold EStateM.bind
  rw [h]

theorem bind_of_error {e : LoadError} (h : x s = .error e s') (f : α → Decoder β) :
    (x >>= f) s = .error e s' := by
  show EStateM.bind x f s = .error e s'
  unfold EStateM.bind
  rw [h]

/-- In front of other reads only the result counts. -/
theorem bind_eq_bind (h : x s = y s') (f : α → Decoder β) : (x >>= f) s = (y >>= f) s' := by
  show EStateM.bind x f s = EStateM.bind y f s'
  unfold EStateM.bind
  rw [h]

theorem bind_congr_of_ok {f g : α → Decoder β} (h : ∀ a s', x s = .ok a s' → f a s' = g a s') :
    (x >>= f) s = (x >>= g) s := by
  show EStateM.bind x f s = EStateM.bind x g s
  unfold EStateM.bind
  cases hx : x s with
  | ok a s' => exact h a s' hx
  | error e s' => rfl

end Bind

theorem take_append {n : Nat} {bytes : List UInt8} (h : bytes.length = n)
    (onShort : Ending → LoadError) (rest : List UInt8) (ending : Ending) :
    take n onShort ⟨bytes ++ rest, ending⟩ = .ok bytes ⟨rest, ending⟩ := by
  subst h
  rw [take_of_le (by simp), Stream.advance, List.take_left, List.drop_left]

theorem take_cases (n : Nat) (onShort : Ending → LoadError) (s : Stream) :
    (∃ bytes rest, bytes.length = n ∧ s = ⟨bytes ++ rest, s.ending⟩ ∧
      take n onShort s = .ok bytes ⟨rest, s.ending⟩) ∨
    s.pending.length < n ∧ take n onShort s = .error (onShort s.ending) s.exhausted := by
  rcases Nat.lt_or_ge s.pending.length n with h | h
  · exact .inr ⟨h, take_of_lt h⟩
  · refine .inl ⟨s.pending.take n, s.pending.drop n, List.length_take_of_le h, ?_, take_of_le h⟩
    rw [List.take_append_drop]

theorem untilNul_cases (part : Section) (s : Stream) :
    (∃ bytes rest, 0 ∉ bytes ∧ s = ⟨bytes ++ 0 :: rest, s.ending⟩ ∧
      untilNul part s = .ok bytes ⟨rest, s.ending⟩) ∨
    0 ∉ s.pending ∧ untilNul part s = .error (s.ending.fixedError part) s.exhausted := by
  by_cases h : 0 ∈ s.pending
  · obtain ⟨bytes, rest, hpending, hbytes⟩ := List.eq_append_cons_of_mem h
    refine .inl ⟨bytes, rest, hbytes, ?_, untilNul_of_pending_eq hpending hbytes⟩
    rw [← hpending]
  · exact .inr ⟨h, untilNul_of_notMem h⟩

/-- The decoder reads the bytes that spell a result, wherever it finds them. -/
def Reads (d : Decoder α) (spells : List UInt8 → α → Prop) : Prop :=
  ∀ s a s', d s = .ok a s' ↔ ∃ bytes, spells bytes a ∧ s = ⟨bytes ++ s'.pending, s'.ending⟩

theorem reads_pure (a : α) : Reads (pure a) fun bytes b => bytes = [] ∧ a = b := by
  intro s b s'
  constructor
  · intro h
    cases h
    exact ⟨[], ⟨rfl, rfl⟩, rfl⟩
  · rintro ⟨bytes, ⟨rfl, rfl⟩, rfl⟩
    rfl

theorem reads_throw (e : LoadError) : Reads (throw e : Decoder α) fun _ _ => False := by
  intro s a s'
  constructor
  · intro h
    cases h
  · rintro ⟨bytes, h, -⟩
    cases h

theorem reads_take (n : Nat) (onShort : Ending → LoadError) :
    Reads (take n onShort) fun bytes a => bytes.length = n ∧ bytes = a := by
  intro s a s'
  constructor
  · intro h
    rcases take_cases n onShort s with ⟨bytes, rest, hlen, hs, hok⟩ | ⟨-, herror⟩
    · rw [hok] at h
      obtain ⟨rfl, rfl⟩ := EStateM.Result.ok.inj h
      exact ⟨bytes, ⟨hlen, rfl⟩, hs⟩
    · rw [herror] at h
      cases h
  · rintro ⟨bytes, ⟨hlen, rfl⟩, rfl⟩
    exact take_append hlen onShort s'.pending s'.ending

theorem reads_untilNul (part : Section) :
    Reads (untilNul part) fun bytes a => 0 ∉ a ∧ bytes = a ++ [0] := by
  intro s a s'
  constructor
  · intro h
    rcases untilNul_cases part s with ⟨bytes, rest, hbytes, hs, hok⟩ | ⟨-, herror⟩
    · rw [hok] at h
      obtain ⟨rfl, rfl⟩ := EStateM.Result.ok.inj h
      refine ⟨bytes ++ [0], ⟨hbytes, rfl⟩, ?_⟩
      rw [List.append_cons] at hs
      exact hs
    · rw [herror] at h
      cases h
  · rintro ⟨bytes, ⟨ha, rfl⟩, rfl⟩
    exact untilNul_of_pending_eq (List.append_cons a 0 s'.pending).symm ha

namespace Reads

variable {d : Decoder α} {spells : List UInt8 → α → Prop}

theorem congr {spells' : List UInt8 → α → Prop} (h : Reads d spells)
    (hiff : ∀ bytes a, spells bytes a ↔ spells' bytes a) : Reads d spells' := by
  intro s a s'
  rw [h s a s']
  simp only [hiff]

theorem bind {f : α → Decoder β} {spells' : α → List UInt8 → β → Prop} (h : Reads d spells)
    (hf : ∀ bytes a, spells bytes a → Reads (f a) (spells' a)) :
    Reads (d >>= f) fun bytes b =>
      ∃ a front back, spells front a ∧ spells' a back b ∧ bytes = front ++ back := by
  intro s b s'
  constructor
  · intro hok
    obtain ⟨a, s₁, ha, hb⟩ := bind_eq_ok hok
    obtain ⟨front, hfront, hs⟩ := (h s a s₁).1 ha
    obtain ⟨back, hback, hs₁⟩ := (hf front a hfront s₁ b s').1 hb
    refine ⟨front ++ back, ⟨a, front, back, hfront, hback, rfl⟩, ?_⟩
    rw [hs, hs₁, List.append_assoc]
  · rintro ⟨_, ⟨a, front, back, hfront, hback, rfl⟩, rfl⟩
    have ha := (h _ a ⟨back ++ s'.pending, s'.ending⟩).2 ⟨front, hfront, rfl⟩
    have hb := (hf front a hfront _ b s').2 ⟨back, hback, rfl⟩
    rw [List.append_assoc, bind_of_ok ha]
    exact hb

theorem map (f : α → β) (h : Reads d spells) :
    Reads (do return f (← d)) fun bytes b => ∃ a, spells bytes a ∧ f a = b := by
  refine (h.bind fun _ a _ => reads_pure (f a)).congr fun bytes b => ?_
  constructor
  · rintro ⟨a, front, back, ha, ⟨rfl, hb⟩, rfl⟩
    rw [List.append_nil]
    exact ⟨a, ha, hb⟩
  · rintro ⟨a, ha, hb⟩
    exact ⟨a, bytes, [], ha, ⟨rfl, hb⟩, (List.append_nil bytes).symm⟩

theorem take_bind {n : Nat} {onShort : Ending → LoadError} {f : List UInt8 → Decoder α}
    (hlong : ∀ bytes a, spells bytes a → n ≤ bytes.length)
    (hf : ∀ head, head.length = n → Reads (f head) fun bytes a => spells (head ++ bytes) a) :
    Reads (take n onShort >>= f) spells := by
  refine ((reads_take n onShort).bind fun _ head h => hf head (h.2 ▸ h.1)).congr
    fun bytes a => ?_
  constructor
  · rintro ⟨_, head, back, ⟨-, rfl⟩, hspells, rfl⟩
    exact hspells
  · intro hspells
    have hsplit := List.take_append_drop n bytes
    refine ⟨_, bytes.take n, bytes.drop n, ⟨?_, rfl⟩, ?_, hsplit.symm⟩
    · exact List.length_take_of_le (hlong bytes a hspells)
    · rw [hsplit]
      exact hspells

theorem map_take (n : Nat) (onShort : Ending → LoadError) (f : List UInt8 → α) :
    Reads (do return f (← take n onShort)) fun bytes a => bytes.length = n ∧ f bytes = a := by
  refine ((reads_take n onShort).map f).congr fun bytes a => ?_
  constructor
  · rintro ⟨_, ⟨hlen, rfl⟩, ha⟩
    exact ⟨hlen, ha⟩
  · rintro ⟨hlen, ha⟩
    exact ⟨bytes, ⟨hlen, rfl⟩, ha⟩

/-- The front of a stream spells one result in one way. -/
theorem unique (h : Reads d spells) {bytes bytes' rest rest' : List UInt8} {a a' : α}
    (ha : spells bytes a) (ha' : spells bytes' a') (heq : bytes ++ rest = bytes' ++ rest') :
    a = a' ∧ bytes = bytes' ∧ rest = rest' := by
  have hok := (h _ a ⟨rest, .endOfData⟩).2 ⟨bytes, ha, rfl⟩
  rw [show bytes ++ rest = _ from heq, (h _ a' ⟨rest', .endOfData⟩).2 ⟨bytes', ha', rfl⟩] at hok
  obtain ⟨rfl, hrest⟩ := EStateM.Result.ok.inj hok
  obtain rfl : rest' = rest := congrArg Stream.pending hrest
  exact ⟨rfl, List.append_cancel_right heq, rfl⟩

end Reads

end Decoder

end TransducerLookup
