import Mathlib.Algebra.Group.Nat.Defs
import TransducerLookup.Proofs.Table.Path
import TransducerLookup.Search.Run

/-!
# Table positions of a search

Addresses come from 31-bit offsets, and a scan goes on only at cells inside the
transition table. So no position that a search computes is much larger than the
largest table.
-/

namespace TransducerLookup.Search

variable {t : Transducer}

theorem offset_ofTarget_lt (target : Target) : (Address.ofTarget target).offset < 2 ^ 31 := by
  by_cases h : target.toNat < Address.pivot
  · rw [show Address.ofTarget target = .index target.toNat from if_pos h]
    exact h
  · have hlt := target.toNat_lt
    have hpivot : Address.pivot = 2 ^ 31 := rfl
    rw [show Address.ofTarget target = .transition (target.toNat - Address.pivot) from if_neg h,
      Address.offset]
    omega

/-! ## Scans -/

theorem lt_size_of_readsNothing (ht : t.WellFormed) {pos : Nat} (h : t.ReadsNothing pos) :
    pos < 2 ^ 32 := by
  rcases Nat.lt_or_ge pos t.transitions.size with hlt | hge
  · have := ht.transitions_lt
    omega
  · exact absurd h (of_decide_eq_false (ht.silent_endsInside pos hge))

theorem lt_size_of_fits (ht : t.WellFormed) {pos : Nat} {symbol : SymbolId}
    (h : t.transitions.fits pos symbol = true) : pos < 2 ^ 32 := by
  rcases Nat.lt_or_ge pos t.transitions.size with hlt | hge
  · have := ht.transitions_lt
    omega
  · rw [TransitionTable.fits, Transducer.input_of_size_le hge] at h
    cases h

/-! ## Frames -/

/-- Every frame has an address with an offset of 31 bits. -/
def State.InBounds (s : State) : Prop := ∀ f ∈ s.frames, f.address.offset < 2 ^ 31

theorem inBounds_begin (t : Transducer) (tokens : List SymbolId) : (begin t tokens).InBounds := by
  intro f hf
  rw [List.mem_singleton.1 hf]
  exact (by decide : (0 : Nat) < 2 ^ 31)

section Turn

variable {s : State} {f : Frame} {below : List Frame} (h : s.InBounds)
  (hframes : s.frames = f :: below)
include h hframes

theorem State.InBounds.setPhase (phase : Phase) :
    ∀ f' ∈ { f with phase } :: below, f'.address.offset < 2 ^ 31 := by
  intro f' hf'
  rcases List.mem_cons.1 hf' with rfl | hf'
  · exact h f (hframes ▸ List.mem_cons_self)
  · exact h f' (hframes ▸ List.mem_cons_of_mem _ hf')

theorem State.InBounds.follow (phase : Phase) (target : Target) (edge : Edge) (depth : Nat) :
    ∀ f' ∈ enter t (.ofTarget target) (some edge) depth :: { f with phase } :: below,
      f'.address.offset < 2 ^ 31 := by
  intro f' hf'
  rcases List.mem_cons.1 hf' with rfl | hf'
  · exact offset_ofTarget_lt target
  · exact h.setPhase hframes phase f' hf'

theorem State.InBounds.tryEpsilon (pos : Nat) : (s.tryEpsilon t f below pos).InBounds := by
  unfold State.tryEpsilon
  dsimp only
  split
  · split
    · exact h.follow hframes _ _ _ _
    · exact h.setPhase hframes _
  · split
    · exact h.setPhase hframes _
    · split
      · split
        · exact h.setPhase hframes _
        · next pushed hpushed =>
          obtain ⟨flags, -, rfl⟩ := Option.map_eq_some_iff.1 hpushed
          exact h.follow hframes _ _ _ _
      · exact h.setPhase hframes _

theorem State.InBounds.arrive : (s.arrive t f below).InBounds := by
  unfold State.arrive
  dsimp only
  split
  · split <;> exact h.setPhase hframes _
  · exact h.setPhase hframes _

theorem State.InBounds.tryConsume (pos : Nat) : (s.tryConsume t f below pos).InBounds := by
  unfold State.tryConsume
  split
  · exact h.follow hframes _ _ _ _
  · exact h.setPhase hframes _

theorem State.InBounds.leave : (s.leave f below).InBounds := by
  intro f' hf'
  refine h f' (hframes ▸ List.mem_cons_of_mem _ ?_)
  unfold State.leave at hf'
  split at hf' <;> exact hf'

end Turn

theorem State.InBounds.turn {s s' : State} (h : s.InBounds) (hturn : s.turn t = some s') :
    s'.InBounds := by
  unfold State.turn at hturn
  split at hturn
  · cases hturn
  · next f below hframes =>
    split at hturn <;> obtain rfl := Option.some.inj hturn
    · exact h.tryEpsilon hframes _
    · exact h.arrive hframes
    · exact h.tryConsume hframes _
    · exact h.leave hframes

end TransducerLookup.Search
