/-
# Reading maps

A map hands out its values in the order of their keys. These lemmas say what is
among the values, when any two of them are related, and how many rows there are
after a change. Those behind them speak of one key after a change or after many
rows, for keys that are equal where they compare as equal. The last one is about
folds that leave something of their state alone.
-/

import Std.Data.ExtTreeMap
import Std.Data.ExtTreeSet

namespace ClaimLedger

section Values

variable {α β : Type} {cmp : α → α → Ordering} [Std.TransCmp cmp] {map : Std.ExtTreeMap α β cmp}

theorem values_eq_map_toList (map : Std.ExtTreeMap α β cmp) :
    map.values = map.toList.map Prod.snd := by
  have fold : map.values = map.foldr (fun _ value values => value :: values) [] := by
    obtain ⟨⟨inner⟩⟩ := map
    induction inner using Quotient.inductionOn
    rfl
  rw [fold, Std.ExtTreeMap.foldr_eq_foldr_toList]
  induction map.toList with
  | nil => rfl
  | cons row more ih => rw [List.foldr_cons, ih, List.map_cons]

theorem mem_values [Std.LawfulEqCmp cmp] {value : β} :
    value ∈ map.values ↔ ∃ key : α, map[key]? = some value := by
  rw [values_eq_map_toList, List.mem_map]
  constructor
  · rintro ⟨⟨key, row⟩, listed, rfl⟩
    exact ⟨key, Std.ExtTreeMap.mem_toList_iff_getElem?_eq_some.mp listed⟩
  · rintro ⟨key, found⟩
    exact ⟨(key, value), Std.ExtTreeMap.mem_toList_iff_getElem?_eq_some.mpr found, rfl⟩

/-- Values under different keys are what any two of the values are. -/
theorem pairwise_values [Std.LawfulEqCmp cmp] {related : β → β → Prop}
    (apart : ∀ (key key' : α) (value value' : β), map[key]? = some value →
      map[key']? = some value' → key ≠ key' → related value value') :
    map.values.Pairwise related := by
  rw [values_eq_map_toList, List.pairwise_map]
  refine map.distinct_keys_toList.imp_of_mem fun {left right} isLeft isRight different => ?_
  rw [Std.ExtTreeMap.mem_toList_iff_getElem?_eq_some] at isLeft isRight
  refine apart left.1 right.1 left.2 right.2 isLeft isRight fun same => different ?_
  rw [same]
  exact Std.ReflCmp.compare_self

/-- Values that show their own keys show different ones. -/
theorem pairwise_values_of_keyed [Std.LawfulEqCmp cmp] {view : β → α}
    (keyed : ∀ {key : α} {value : β}, map[key]? = some value → view value = key) :
    map.values.Pairwise fun left right => view left ≠ view right := by
  apply pairwise_values
  intro key key' value value' found found' different
  rw [keyed found, keyed found']
  exact different

theorem size_insert_of_getElem?_eq_some {key : α} {value : β}
    (found : map[key]? = some value) (row : β) : (map.insert key row).size = map.size := by
  have known : key ∈ map := Std.ExtTreeMap.mem_iff_isSome_getElem?.mpr (found ▸ rfl)
  rw [Std.ExtTreeMap.size_insert, if_pos (Std.ExtTreeMap.contains_iff_mem.mpr known)]

theorem size_insert_of_getElem?_eq_none {key : α} (free : map[key]? = none)
    (row : β) : (map.insert key row).size = map.size + 1 := by
  have unknown : key ∉ map := fun known => by
    rw [Std.ExtTreeMap.mem_iff_isSome_getElem?, free] at known
    cases known
  rw [Std.ExtTreeMap.size_insert, if_neg (mt Std.ExtTreeMap.contains_iff_mem.mp unknown)]

theorem size_erase_of_getElem?_eq_some {key : α} {value : β}
    (found : map[key]? = some value) : (map.erase key).size + 1 = map.size := by
  have known : key ∈ map := Std.ExtTreeMap.mem_iff_isSome_getElem?.mpr (found ▸ rfl)
  have filled : map.size ≠ 0 := fun none => by
    rw [Std.ExtTreeMap.eq_empty_iff_size_eq_zero.mpr none] at known
    exact Std.ExtTreeMap.not_mem_empty known
  rw [Std.ExtTreeMap.size_erase, if_pos (Std.ExtTreeMap.contains_iff_mem.mpr known)]
  exact Nat.succ_pred_eq_of_ne_zero filled

end Values

section Keys

variable {α β : Type} [Ord α] [Std.TransOrd α] [Std.LawfulEqOrd α] {key other : α}

theorem getElem?_insert_of_ne (map : Std.ExtTreeMap α β) (value : β) (different : key ≠ other) :
    (map.insert key value)[other]? = map[other]? := by
  rw [Std.ExtTreeMap.getElem?_insert, if_neg (mt Std.compare_eq_iff_eq.mp different)]

/-- Writing down what is there already changes nothing. -/
theorem insert_of_getElem?_eq_some {map : Std.ExtTreeMap α β} {value : β}
    (found : map[key]? = some value) : map.insert key value = map := by
  apply Std.ExtTreeMap.ext_getElem?
  intro other
  rw [Std.ExtTreeMap.getElem?_insert]
  split
  · next same => rw [← Std.compare_eq_iff_eq.mp same, found]
  · rfl

theorem getElem?_erase_of_ne (map : Std.ExtTreeMap α β) (different : key ≠ other) :
    (map.erase key)[other]? = map[other]? := by
  rw [Std.ExtTreeMap.getElem?_erase, if_neg (mt Std.compare_eq_iff_eq.mp different)]

theorem map_insert {γ : Type} (map : Std.ExtTreeMap α β) (key : α) (value : β) (f : β → γ) :
    (map.insert key value).map (fun _ => f) = (map.map fun _ => f).insert key (f value) := by
  apply Std.ExtTreeMap.ext_getElem?
  intro other
  simp only [Std.ExtTreeMap.getElem?_map, Std.ExtTreeMap.getElem?_insert, apply_ite (Option.map f),
    Option.map_some]

theorem map_erase {γ : Type} (map : Std.ExtTreeMap α β) (key : α) (f : β → γ) :
    (map.erase key).map (fun _ => f) = (map.map fun _ => f).erase key := by
  apply Std.ExtTreeMap.ext_getElem?
  intro other
  simp only [Std.ExtTreeMap.getElem?_map, Std.ExtTreeMap.getElem?_erase, apply_ite (Option.map f),
    Option.map_none]

/-- Where no key comes with two values, a map has all rows that it is given, and
keeps what it had under other keys. -/
theorem getElem?_foldl_insert {rows : List (α × β)} {map : Std.ExtTreeMap α β} {value : β}
    (single : ∀ row ∈ rows, ∀ other ∈ rows, row.1 = other.1 → row.2 = other.2) :
    (rows.foldl (fun map row => map.insert row.1 row.2) map)[key]? = some value ↔
      (key, value) ∈ rows ∨ (∀ row ∈ rows, row.1 ≠ key) ∧ map[key]? = some value := by
  induction rows generalizing map with
  | nil => simp
  | cons row more ih =>
    have later (row : α × β) (listed : row ∈ more) (other : α × β) (listed' : other ∈ more) :=
      single row (List.mem_cons_of_mem _ listed) other (List.mem_cons_of_mem _ listed')
    rw [List.foldl_cons, ih later, Std.ExtTreeMap.getElem?_insert]
    by_cases here : row.1 = key
    · rw [if_pos (Std.compare_eq_iff_eq.mpr here)]
      have same (other : α × β) (listed : other ∈ more) (isKey : other.1 = key) :
          other.2 = row.2 :=
        single other (List.mem_cons_of_mem _ listed) row List.mem_cons_self (isKey.trans here.symm)
      grind
    · rw [if_neg (mt Std.compare_eq_iff_eq.mp here)]
      grind

/-- After many rows, a value is from one of them or was there before. -/
theorem mem_or_getElem?_of_foldl_insert {rows : List (α × β)} {map : Std.ExtTreeMap α β}
    {value : β}
    (found : (rows.foldl (fun map row => map.insert row.1 row.2) map)[key]? = some value) :
    (key, value) ∈ rows ∨ map[key]? = some value := by
  induction rows generalizing map with
  | nil => exact .inr found
  | cons row more ih =>
    rcases ih found with listed | found
    · exact .inl (List.mem_cons_of_mem row listed)
    · rw [Std.ExtTreeMap.getElem?_insert] at found
      split at found
      · next same =>
        cases found
        rw [← Std.compare_eq_iff_eq.mp same]
        exact .inl List.mem_cons_self
      · exact .inr found

theorem mem_foldl_insert {rows : List (α × β)} {map : Std.ExtTreeMap α β} :
    key ∈ rows.foldl (fun map row => map.insert row.1 row.2) map ↔
      (∃ row ∈ rows, row.1 = key) ∨ key ∈ map := by
  induction rows generalizing map with
  | nil => simp
  | cons row more ih =>
    rw [List.foldl_cons, ih, Std.ExtTreeMap.mem_insert, Std.compare_eq_iff_eq]
    simp only [List.mem_cons, exists_eq_or_imp]
    rw [or_left_comm, or_assoc]

theorem mem_insert_iff {set : Std.ExtTreeSet α} :
    other ∈ set.insert key ↔ key = other ∨ other ∈ set := by
  rw [Std.ExtTreeSet.mem_insert, Std.compare_eq_iff_eq]

theorem mem_erase_iff {set : Std.ExtTreeSet α} :
    other ∈ set.erase key ↔ key ≠ other ∧ other ∈ set := by
  rw [Std.ExtTreeSet.mem_erase, Ne, Std.compare_eq_iff_eq]

end Keys

/-- What every step leaves alone is left alone by all of them. -/
theorem foldl_keeps {σ ρ α : Type} (view : σ → α) (step : σ → ρ → σ)
    (keeps : ∀ state row, view (step state row) = view state) (rows : List ρ) (state : σ) :
    view (rows.foldl step state) = view state := by
  induction rows generalizing state with
  | nil => rfl
  | cons row more ih => exact (ih (step state row)).trans (keeps state row)

end ClaimLedger
