/-
  Local computations.

  A local computation depends on the cells that it notes and on nothing else: not
  on other values, and not on what is loaded, noted or on the journal already.
  On every accumulator whose values agree on these cells it gives the same
  answer and leaves the same values there, and elsewhere it leaves what it found.

  The accesses are local, and sequences, choices and rollback keep to it.
-/
import BlockExecution.Proofs.State.Rollback
import BlockExecution.State.Execution

namespace BlockExecution

open BlockExecution.Snapshot

variable {α β γ : Type}

/-! ## Footprints -/

/-- The run of `x` on `b` does what the run on `s` does: it answers the same, leaves the same values
on `region`, and elsewhere leaves what it found. -/
structure Mirrors (x : Accumulator → β × Accumulator) (s : Accumulator) (region : Set Cell)
    (b : Accumulator) : Prop where
  answer : (x b).1 = (x s).1
  within : AgreeOn region (x b).2.values (x s).2.values
  outside : AgreeOn regionᶜ (x b).2.values b.values

/-- The run on `b` mirrors that on `s` and notes `region`. -/
structure Follows (x : Accumulator → β × Accumulator) (s : Accumulator) (region : Set Cell)
    (b : Accumulator) : Prop extends Mirrors x s region b where
  noted : (x b).2.noted = b.noted ∪ region

/-- A footprint of the run on `s`: accumulators that agree on it make no difference. -/
def IsFootprint (x : Accumulator → β × Accumulator) (s : Accumulator) (region : Set Cell) :
    Prop :=
  ∀ b : Accumulator, b.Sound → b.base.Readable → AgreeOn region b.values s.values →
    Follows x s region b

/-- A computation that can be taken back and whose runs have footprints. -/
structure Local (x : Accumulator → β × Accumulator) : Prop where
  grows : ∀ w : Accumulator, w.Sound → w.Extends (x w).2
  footprint : ∀ s : Accumulator, s.Sound → s.base.Readable → ∃ region, IsFootprint x s region

namespace Local

variable {x y : Accumulator → β × Accumulator}

/-- Only what happens on sound accumulators counts. -/
theorem congr (hy : Local y) (h : ∀ w : Accumulator, w.Sound → x w = y w) : Local x where
  grows w hw := by
    rw [h w hw]
    exact hy.grows w hw
  footprint s hs hr := by
    obtain ⟨region, hfoot⟩ := hy.footprint s hs hr
    refine ⟨region, fun b hb hbr hagree => ?_⟩
    have hfollows := hfoot b hb hbr hagree
    refine ⟨⟨?_, ?_, ?_⟩, ?_⟩ <;> rw [h b hb]
    · rw [h s hs]
      exact hfollows.answer
    · rw [h s hs]
      exact hfollows.within
    · exact hfollows.outside
    · exact hfollows.noted

/-- An answer without an access. -/
theorem pure (a : β) : Local fun w => (a, w) where
  grows _ hw := .refl hw
  footprint _ _ _ := by
    refine ⟨∅, fun b _ _ hagree => ⟨⟨rfl, hagree, AgreeOn.refl _ _⟩, ?_⟩⟩
    exact (Set.union_empty _).symm

/-- One computation after the other. Of what comes after, only the answers over readable views need
to lead to something local. -/
theorem bind_of_answers (hx : Local x) {f : β → Accumulator → γ × Accumulator}
    (hgrows : ∀ a (w : Accumulator), w.Sound → w.Extends (f a w).2)
    (hf : ∀ s : Accumulator, s.Sound → s.base.Readable → Local (f (x s).1)) :
    Local fun w => f (x w).1 (x w).2 where
  grows w hw := (hx.grows w hw).trans (hgrows _ _ (hx.grows w hw).sound)
  footprint s hs hr := by
    have hs' := hx.grows s hs
    obtain ⟨first, hfirst⟩ := hx.footprint s hs hr
    obtain ⟨second, hsecond⟩ := (hf s hs hr).footprint (x s).2 hs'.sound (hs'.base ▸ hr)
    refine ⟨first ∪ second, fun b hb hbr hagree => ?_⟩
    have hb' := hx.grows b hb
    have hone := hfirst b hb hbr (hagree.mono Set.subset_union_left)
    -- Between the two, the values agree on both footprints: the first run left the same values
    -- on its own, and the rest of the second footprint was not touched by either run.
    have hs_out := (hfirst s hs hr (AgreeOn.refl _ _)).outside
    have hmid : AgreeOn (first ∪ second) (x b).2.values (x s).2.values := by
      intro c hc
      by_cases hcf : c ∈ first
      · exact hone.within c hcf
      · exact ((hone.outside c hcf).trans (hagree c hc)).trans (hs_out c hcf).symm
    have htwo := hsecond (x b).2 hb'.sound (hb'.base ▸ hbr) (hmid.mono Set.subset_union_right)
    have hstwo := hsecond (x s).2 hs'.sound (hs'.base ▸ hr) (AgreeOn.refl _ _)
    refine ⟨⟨?_, ?_, ?_⟩, ?_⟩ <;> rw [hone.answer]
    · exact htwo.answer
    · intro c hc
      by_cases hcs : c ∈ second
      · exact htwo.within c hcs
      · exact ((htwo.outside c hcs).trans (hmid c hc)).trans (hstwo.outside c hcs).symm
    · intro c hc
      have hcf : c ∉ first := fun h => hc (.inl h)
      have hcs : c ∉ second := fun h => hc (.inr h)
      exact (htwo.outside c hcs).trans (hone.outside c hcf)
    · rw [htwo.noted, hone.noted, Set.union_assoc]

theorem bind (hx : Local x) {f : β → Accumulator → γ × Accumulator} (hf : ∀ a, Local (f a)) :
    Local fun w => f (x w).1 (x w).2 :=
  hx.bind_of_answers (fun a => (hf a).grows) fun s _ _ => hf (x s).1

/-- On accumulators of the same values a local computation answers the same, leaves the same values
and notes the same. -/
theorem of_values_eq (hx : Local x) {s b : Accumulator} (hs : s.Sound) (hsr : s.base.Readable)
    (hb : b.Sound) (hbr : b.base.Readable) (h : b.values = s.values) :
    (x b).1 = (x s).1 ∧ (x b).2.values = (x s).2.values ∧
      ∃ region, (x s).2.noted = s.noted ∪ region ∧ (x b).2.noted = b.noted ∪ region := by
  obtain ⟨region, hfoot⟩ := hx.footprint s hs hsr
  have hmine := hfoot s hs hsr (AgreeOn.refl _ _)
  have hother := hfoot b hb hbr (h ▸ AgreeOn.refl _ _)
  refine ⟨hother.answer, hother.within.eq ?_, region, hmine.noted, hother.noted⟩
  exact (hother.outside.trans (h ▸ AgreeOn.refl _ _)).trans hmine.outside.symm

/-- A computation whose writes are undone again after some of its answers. -/
theorem tentative (hx : Local x) (undone : β → Bool) :
    Local fun w =>
      ((x w).1, if undone (x w).1 then (x w).2.revertTo w.checkpoint else (x w).2) where
  grows w hw := by
    have hext := hx.grows w hw
    by_cases h : undone (x w).1
    · simp only [h, if_true]
      exact hext.revertTo.extends hext
    · simp only [h]
      exact hext
  footprint s hs hr := by
    obtain ⟨region, hfoot⟩ := hx.footprint s hs hr
    refine ⟨region, fun b hb hbr hagree => ?_⟩
    have hone := hfoot b hb hbr hagree
    have hb' := (hx.grows b hb).revertTo
    have hs' := (hx.grows s hs).revertTo
    -- The answers agree, so either both runs are taken back or none is.
    by_cases h : undone (x s).1
    · refine ⟨⟨?_, ?_, ?_⟩, ?_⟩ <;> simp only [hone.answer, h, if_true]
      · rw [hb'.values, hs'.values]
        exact hagree
      · rw [hb'.values]
        exact AgreeOn.refl _ _
      · rw [hb'.noted, hone.noted]
    · refine ⟨⟨?_, ?_, ?_⟩, ?_⟩ <;> simp only [hone.answer, h]
      · exact hone.within
      · exact hone.outside
      · exact hone.noted

end Local

end BlockExecution
