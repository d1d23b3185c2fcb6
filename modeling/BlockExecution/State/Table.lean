/-
  Finite tables: ordered maps that are equal when they hold the same entries.

  Two operations are added to those of the map. `Table.absorb` takes every entry
  of a second table into the first, and `Table.dropKeys` drops the entries under
  chosen keys; for each there is one equation for the look-up.

  Words serve as keys: addresses, hashes and block numbers are ordered as
  numbers.
-/
import Std.Data.ExtTreeMap
import BlockExecution.Word

namespace BlockExecution

/-! ## Order of keys -/

instance : Std.TransOrd Address := inferInstance

instance : Std.TransOrd Word := inferInstance

instance : Std.TransOrd U64 := inferInstance

instance : Std.LawfulEqOrd Address := inferInstance

instance : Std.LawfulEqOrd Word := inferInstance

instance : Std.LawfulEqOrd U64 := inferInstance

/-! ## Tables -/

/-- A map from keys to values that lists its entries in ascending order of keys. -/
abbrev Table (K V : Type) [Ord K] := Std.ExtTreeMap K V

namespace Table

variable {K V W : Type} [Ord K] [Std.TransOrd K]

/-! ## Taking over entries -/

/-- Takes every entry of `source` into `target`. An entry is combined with what `target` holds
under its key. -/
def absorb (combine : Option V → W → V) (target : Table K V) (source : Table K W) : Table K V :=
  source.foldl (fun acc k v => acc.alter k fun old => some (combine old v)) target

private theorem getElem?_absorb_list [Std.LawfulEqOrd K] (combine : Option V → W → V)
    (entries : List (K × W)) (target : Table K V) (k : K)
    (distinct : entries.Pairwise fun a b => ¬ compare a.1 b.1 = .eq) :
    (entries.foldl (fun acc e => acc.alter e.1 fun old => some (combine old e.2)) target)[k]? =
      match entries.find? (fun e => compare e.1 k == .eq) with
      | some e => some (combine target[k]? e.2)
      | none => target[k]? := by
  -- Induction on the entries; no two of them have the same key.
  induction entries generalizing target with
  | nil => rfl
  | cons e rest ih =>
    rw [List.pairwise_cons] at distinct
    obtain ⟨hhead, htail⟩ := distinct
    rw [List.foldl_cons, ih _ htail]
    by_cases hk : compare e.1 k = .eq
    · have heq : e.1 = k := Std.LawfulEqOrd.eq_of_compare hk
      have hnone : rest.find? (fun e => compare e.1 k == .eq) = none := by
        rw [List.find?_eq_none]
        intro x hx
        have := hhead x hx
        rw [heq] at this
        intro hcmp
        refine this ?_
        have : x.1 = k := Std.LawfulEqOrd.eq_of_compare (by simpa using hcmp)
        rw [this]
        exact Std.ReflOrd.compare_self
      rw [hnone, List.find?_cons]
      simp [heq]
    · have hfalse : (compare e.1 k == .eq) = false := by simpa using hk
      rw [List.find?_cons, hfalse, Std.ExtTreeMap.getElem?_alter, if_neg hk]

/-- What is found after taking over a table. -/
theorem getElem?_absorb [Std.LawfulEqOrd K] (combine : Option V → W → V)
    (target : Table K V) (source : Table K W) (k : K) :
    (absorb combine target source)[k]? =
      match source[k]? with
      | some v => some (combine target[k]? v)
      | none => target[k]? := by
  rw [absorb, Std.ExtTreeMap.foldl_eq_foldl_toList,
    getElem?_absorb_list combine source.toList target k Std.ExtTreeMap.distinct_keys_toList]
  cases hfind : source.toList.find? (fun e => compare e.1 k == .eq) with
  | none =>
    have hnone : source[k]? = none := by
      cases hv : source[k]? with
      | none => rfl
      | some v =>
        have hmem := Std.ExtTreeMap.mem_toList_iff_getElem?_eq_some.mpr hv
        have := List.find?_eq_none.mp hfind _ hmem
        simp at this
    rw [hnone]
  | some e =>
    have hmem := List.mem_of_find?_eq_some hfind
    have hkey : e.1 = k := Std.LawfulEqOrd.eq_of_compare (by simpa using List.find?_some hfind)
    have hget : source[k]? = some e.2 := by
      rw [← hkey]
      exact Std.ExtTreeMap.mem_toList_iff_getElem?_eq_some.mp hmem
    rw [hget]

/-! ## Dropping entries -/

/-- Drops the entries under the keys that `drop` names. -/
def dropKeys (drop : K → Bool) (t : Table K V) : Table K V :=
  t.filter fun k _ => !drop k

/-- What is found after dropping keys. -/
theorem getElem?_dropKeys [Std.LawfulEqOrd K] (drop : K → Bool) (t : Table K V) (k : K) :
    (dropKeys drop t)[k]? = if drop k then none else t[k]? := by
  have hkey : ∀ h : k ∈ t, t.getKey k h = k := Std.ExtTreeMap.getKey_eq
  simp only [dropKeys, Std.ExtTreeMap.getElem?_filter, hkey]
  cases hd : drop k with
  | true => simp
  | false => cases t[k]? <;> rfl

end Table

end BlockExecution
