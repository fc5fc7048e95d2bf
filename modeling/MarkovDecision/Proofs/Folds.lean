import Std.Data.TreeMap

/-!
# Results and folds

What a computation that succeeds returns, what a fold over a list preserves, and what a table
holds after a list of entries was put into it one after the other, when each entry replaces what
was there and when the entries of a key are gathered in a list.
-/

namespace MarkovDecision

open Std (TreeMap TransOrd LawfulEqOrd ReflCmp)

section Results

variable {E T : Type} {result : Except E T}

/-- A computation that succeeds, which can be checked by evaluation, has a value. -/
theorem exists_eq_ok (isOk : result.isOk = true) : ∃ value, result = .ok value := by
  cases result with
  | error error => cases isOk
  | ok value => exact ⟨value, rfl⟩

theorem eq_ok_get (hasValue : result.toOption.isSome = true) :
    result = .ok (result.toOption.get hasValue) := by
  cases result with
  | error error => cases hasValue
  | ok value => rfl

theorem mem_toOption_of_eq_ok {value : T} (isValue : result = .ok value) :
    value ∈ result.toOption := by
  rw [isValue]
  rfl

/-- Two computations end alike: with results that are related, or with the same failure. -/
inductive EndAlike {U : Type} (related : T → U → Prop) : Except E T → Except E U → Prop
  | ok {value : T} {other : U} (isRelated : related value other) :
    EndAlike related (.ok value) (.ok other)
  | error (failure : E) : EndAlike related (.error failure) (.error failure)

theorem EndAlike.imp {U : Type} {related weaker : T → U → Prop} {other : Except E U}
    (endAlike : EndAlike related result other)
    (weaken : ∀ {value other}, related value other → weaker value other) :
    EndAlike weaker result other := by
  cases endAlike with
  | ok isRelated => exact .ok (weaken isRelated)
  | error failure => exact .error failure

end Results

/-- What every successful step preserves holds at the end of a fold.  The property may speak of the
entries that are still to come. -/
theorem foldlM_induction {E T Failure : Type} {step : T → E → Except Failure T}
    {motive : List E → T → Prop}
    (preserved : ∀ first rest before after, motive (first :: rest) before →
      step before first = .ok after → motive rest after)
    {entries : List E} {start result : T} (folded : entries.foldlM step start = .ok result)
    (atStart : motive entries start) : motive [] result := by
  induction entries generalizing start with
  | nil =>
      cases folded
      exact atStart
  | cons first rest ih =>
      rw [List.foldlM_cons] at folded
      cases stepped : step start first with
      | error failure =>
          rw [stepped] at folded
          cases folded
      | ok after =>
          rw [stepped] at folded
          exact ih folded (preserved first rest start after atStart stepped)

/-- A fold fails in one of its steps, after steps that succeed. -/
theorem exists_step_of_foldlM_eq_error {E T Failure : Type} {step : T → E → Except Failure T}
    {entries : List E} {start : T} {failure : Failure}
    (failed : entries.foldlM step start = .error failure) :
    ∃ earlier entry later before, entries = earlier ++ entry :: later ∧
      earlier.foldlM step start = .ok before ∧ step before entry = .error failure := by
  induction entries generalizing start with
  | nil => cases failed
  | cons first rest ih =>
      rw [List.foldlM_cons] at failed
      cases stepped : step start first with
      | error other =>
          rw [stepped] at failed
          cases failed
          exact ⟨[], first, rest, start, rfl, rfl, stepped⟩
      | ok after =>
          rw [stepped] at failed
          obtain ⟨earlier, entry, later, before, rfl, folded, fails⟩ := ih failed
          refine ⟨first :: earlier, entry, later, before, rfl, ?_, fails⟩
          rw [List.foldlM_cons, stepped]
          exact folded

/-- A fold of checked steps succeeds where every entry passes the check, and then does what the
steps do without it. -/
theorem foldlM_eq_ok_iff {E T Failure : Type} {step : T → E → Except Failure T}
    {Passes : E → Prop} {act : T → E → T}
    (step_iff : ∀ before entry after,
      step before entry = .ok after ↔ Passes entry ∧ after = act before entry)
    (entries : List E) (start result : T) :
    entries.foldlM step start = .ok result ↔
      (∀ entry ∈ entries, Passes entry) ∧ result = entries.foldl act start := by
  induction entries generalizing start with
  | nil =>
      rw [List.foldlM_nil]
      constructor
      · intro isStart
        cases isStart
        simp
      · rintro ⟨-, rfl⟩
        rfl
  | cons first rest ih =>
      rw [List.foldlM_cons, List.foldl_cons, List.forall_mem_cons]
      constructor
      · intro folded
        cases stepped : step start first with
        | error failure =>
            rw [stepped] at folded
            cases folded
        | ok after =>
            obtain ⟨passes, rfl⟩ := (step_iff start first after).mp stepped
            rw [stepped] at folded
            obtain ⟨passRest, resultEq⟩ := (ih (act start first)).mp folded
            exact ⟨⟨passes, passRest⟩, resultEq⟩
      · rintro ⟨⟨passes, passRest⟩, resultEq⟩
        rw [(step_iff start first (act start first)).mpr ⟨passes, rfl⟩]
        exact (ih (act start first)).mpr ⟨passRest, resultEq⟩

/-- A fold whose steps fail for reasons of their own fails at the first entry that has one. -/
theorem foldlM_eq_error_iff {E T Failure : Type} {step : T → E → Except Failure T}
    (Fails : E → Failure → Prop)
    (step_iff : ∀ before entry failure,
      step before entry = .error failure ↔ Fails entry failure)
    (entries : List E) (start : T) (failure : Failure) :
    entries.foldlM step start = .error failure ↔
      ∃ earlier entry later, entries = earlier ++ entry :: later ∧
        (∀ other ∈ earlier, ∀ reason, ¬Fails other reason) ∧ Fails entry failure := by
  induction entries generalizing start with
  | nil =>
      refine iff_of_false (fun failed => by cases failed) ?_
      rintro ⟨earlier, entry, later, split, -⟩
      simp at split
  | cons first rest ih =>
      rw [List.foldlM_cons]
      cases stepped : step start first with
      | error reason =>
          have firstFails := (step_iff start first reason).mp stepped
          constructor
          · rintro ⟨⟩
            exact ⟨[], first, rest, rfl, by simp, firstFails⟩
          · rintro ⟨earlier, entry, later, split, passes, fails⟩
            rcases List.cons_eq_append_iff.mp split with ⟨rfl, sameList⟩ | ⟨others, rfl, -⟩
            · cases sameList
              exact stepped.symm.trans ((step_iff start first failure).mpr fails)
            · exact (passes first List.mem_cons_self reason firstFails).elim
      | ok after =>
          have firstPasses (reason : Failure) : ¬Fails first reason := fun fails => by
            cases stepped.symm.trans ((step_iff start first reason).mpr fails)
          refine (ih after).trans ?_
          constructor
          · rintro ⟨earlier, entry, later, rfl, passes, fails⟩
            exact ⟨first :: earlier, entry, later, rfl,
              List.forall_mem_cons.mpr ⟨firstPasses, passes⟩, fails⟩
          · rintro ⟨earlier, entry, later, split, passes, fails⟩
            rcases List.cons_eq_append_iff.mp split with ⟨rfl, sameList⟩ | ⟨others, rfl, restEq⟩
            · cases sameList
              exact (firstPasses failure fails).elim
            · exact ⟨others, entry, later, restEq, (List.forall_mem_cons.mp passes).2, fails⟩

theorem exists_foldlM_eq_ok {E T Failure : Type} {step : T → E → Except Failure T}
    {entries : List E} (succeeds : ∀ entry ∈ entries, ∀ before, ∃ after,
      step before entry = .ok after) (start : T) :
    ∃ result, entries.foldlM step start = .ok result := by
  induction entries generalizing start with
  | nil => exact ⟨start, rfl⟩
  | cons first rest ih =>
      obtain ⟨after, stepped⟩ := succeeds first (by simp) start
      obtain ⟨result, folded⟩ := ih (fun entry member => succeeds entry (by simp [member])) after
      exact ⟨result, by rw [List.foldlM_cons, stepped]; exact folded⟩

theorem EndAlike.foldlM {E T U Failure : Type} {related : T → U → Prop}
    {step : T → E → Except Failure T} {otherStep : U → E → Except Failure U} {entries : List E}
    (steps : ∀ entry ∈ entries, ∀ before other, related before other →
      EndAlike related (step before entry) (otherStep other entry))
    {start : T} {otherStart : U} (starts : related start otherStart) :
    EndAlike related (entries.foldlM step start) (entries.foldlM otherStep otherStart) := by
  induction entries generalizing start otherStart with
  | nil => exact .ok starts
  | cons first rest ih =>
      rw [List.foldlM_cons, List.foldlM_cons]
      have firstSteps := steps first (by simp) start otherStart starts
      generalize step start first = stepped at firstSteps ⊢
      generalize otherStep otherStart first = otherStepped at firstSteps ⊢
      cases firstSteps with
      | error failure => exact .error failure
      | ok isRelated => exact ih (fun entry member => steps entry (by simp [member])) isRelated

/-- What one step of a fold establishes and all of them preserve holds at its end. -/
theorem foldl_of_mem {E T : Type} {step : T → E → T} {motive : T → Prop} {entries : List E}
    (preserved : ∀ entry ∈ entries, ∀ before, motive before → motive (step before entry))
    {entry : E} (member : entry ∈ entries) (established : ∀ before, motive (step before entry))
    (start : T) : motive (entries.foldl step start) := by
  obtain ⟨earlier, later, rfl⟩ := List.append_of_mem member
  rw [List.foldl_append, List.foldl_cons]
  exact List.foldlRecOn later step (established _) fun before holds other otherMem =>
    preserved other (by simp [otherMem]) before holds

theorem foldl_pair {E T U : Type} {step : T × U → E → T × U} {first : T → E → T}
    {second : U → E → U} (apart : ∀ before other entry,
      step (before, other) entry = (first before entry, second other entry))
    (entries : List E) (start : T) (other : U) :
    entries.foldl step (start, other) =
      (entries.foldl first start, entries.foldl second other) := by
  induction entries generalizing start other with
  | nil => rfl
  | cons entry rest ih => rw [List.foldl_cons, apart, ih, List.foldl_cons, List.foldl_cons]

theorem values_eq_map {K V : Type} [Ord K] (table : TreeMap K V) :
    table.values = table.toList.map fun entry => entry.2 := by
  have folded : table.values = table.foldr (fun _ value values => value :: values) [] := rfl
  rw [folded, TreeMap.foldr_eq_foldr_toList, List.map_eq_foldr]

theorem mem_values_of_getElem? {K V : Type} [Ord K] [TransOrd K] {table : TreeMap K V} {key : K}
    {value : V} (found : table[key]? = some value) : value ∈ table.values := by
  obtain ⟨stored, -, member⟩ :=
    TreeMap.getElem?_eq_some_iff_exists_compare_eq_eq_and_mem_toList.mp found
  rw [values_eq_map]
  exact List.mem_map_of_mem member

theorem getElem?_of_mem_toList {K V : Type} [Ord K] [TransOrd K] {table : TreeMap K V}
    {entry : K × V} (member : entry ∈ table.toList) : table[entry.1]? = some entry.2 :=
  TreeMap.getElem?_eq_some_iff_exists_compare_eq_eq_and_mem_toList.mpr
    ⟨entry.1, ReflCmp.compare_self, member⟩

/-- A table from which keys are filtered out by a test that goes by their order. -/
theorem getElem?_filter_keys {K V : Type} [Ord K] [TransOrd K] {table : TreeMap K V}
    {test : K → Bool}
    (respects : ∀ {first second : K}, compare first second = .eq → test first = test second)
    {key : K} : (table.filter fun label _ => test label)[key]? =
      if test key then table[key]? else none := by
  have sameTest (present : key ∈ table) : test (table.getKey key present) = test key :=
    respects (TreeMap.compare_getKey_self present)
  simp only [TreeMap.getElem?_filter, sameTest, Option.pfilter_eq_filter]
  cases table[key]? <;> simp [Option.filter]

theorem contains_iff_exists_mem_toList {K V : Type} [Ord K] [TransOrd K] (table : TreeMap K V)
    (key : K) :
    table.contains key = true ↔ ∃ entry ∈ table.toList, compare entry.1 key = .eq := by
  constructor
  · intro present
    rw [TreeMap.contains_eq_isSome_getElem?] at present
    obtain ⟨value, found⟩ := Option.isSome_iff_exists.mp present
    obtain ⟨stored, same, member⟩ :=
      TreeMap.getElem?_eq_some_iff_exists_compare_eq_eq_and_mem_toList.mp found
    exact ⟨(stored, value), member, Std.OrientedCmp.eq_symm same⟩
  · rintro ⟨entry, member, same⟩
    rw [← TreeMap.contains_congr same, TreeMap.contains_eq_isSome_getElem?,
      getElem?_of_mem_toList member]
    rfl

theorem contains_iff_exists_mem_keys {K V : Type} [Ord K] [TransOrd K] (table : TreeMap K V)
    (key : K) :
    table.contains key = true ↔ ∃ label ∈ table.keys, compare label key = .eq := by
  rw [contains_iff_exists_mem_toList, ← TreeMap.map_fst_toList_eq_keys]
  constructor
  · rintro ⟨entry, member, same⟩
    exact ⟨entry.1, List.mem_map.mpr ⟨entry, member, rfl⟩, same⟩
  · rintro ⟨label, member, same⟩
    obtain ⟨entry, entryMem, rfl⟩ := List.mem_map.mp member
    exact ⟨entry, entryMem, same⟩

variable {S V : Type} [Ord S] [TransOrd S] [LawfulEqOrd S]

theorem getElem?_foldl_insert_of_notMem {entries : List (S × V)} {state : S}
    (absent : ∀ entry ∈ entries, entry.1 ≠ state) (table : TreeMap S V) :
    (entries.foldl (fun table entry => table.insert entry.1 entry.2) table)[state]? =
      table[state]? := by
  induction entries generalizing table with
  | nil => rfl
  | cons first rest ih =>
      have different : compare first.1 state ≠ .eq := fun same =>
        absent first (by simp) (Std.compare_eq_iff_eq.mp same)
      rw [List.foldl_cons, ih fun entry member => absent entry (List.mem_cons_of_mem first member),
        TreeMap.getElem?_insert, if_neg different]

theorem getElem?_foldl_insert_of_mem {entries : List (S × V)}
    (distinct : (entries.map fun entry => entry.1).Nodup) {state : S} {value : V}
    (member : (state, value) ∈ entries) (table : TreeMap S V) :
    (entries.foldl (fun table entry => table.insert entry.1 entry.2) table)[state]? =
      some value := by
  induction entries generalizing table with
  | nil => cases member
  | cons first rest ih =>
      obtain ⟨isNew, distinctRest⟩ := List.nodup_cons.mp distinct
      rw [List.foldl_cons]
      rcases List.mem_cons.mp member with isFirst | later
      · subst isFirst
        rw [getElem?_foldl_insert_of_notMem, TreeMap.getElem?_insert_self]
        intro entry entryMem sameKey
        exact isNew (List.mem_map.mpr ⟨entry, entryMem, sameKey⟩)
      · exact ih distinctRest later _

theorem mem_getD_foldl_gather {E : Type} (key : E → S) (item : E → V) (entries : List E)
    (table : TreeMap S (List V)) (state : S) (value : V) :
    value ∈ (entries.foldl (fun table entry =>
        table.alter (key entry) fun items? => some (item entry :: items?.getD [])) table).getD
          state [] ↔
      value ∈ table.getD state [] ∨ ∃ entry ∈ entries, key entry = state ∧ item entry = value := by
  induction entries generalizing table with
  | nil => simp
  | cons first rest ih =>
      rw [List.foldl_cons, ih, TreeMap.getD_alter]
      by_cases same : key first = state
      · rw [if_pos (Std.compare_eq_iff_eq.mpr same), same, ← TreeMap.getD_eq_getD_getElem?,
          Option.getD_some, List.mem_cons]
        constructor
        · rintro ((isFirst | old) | ⟨entry, later, found⟩)
          · exact Or.inr ⟨first, by simp, same, isFirst.symm⟩
          · exact Or.inl old
          · exact Or.inr ⟨entry, List.mem_cons_of_mem first later, found⟩
        · rintro (old | ⟨entry, member, found⟩)
          · exact Or.inl (Or.inr old)
          · rcases List.mem_cons.mp member with isFirst | later
            · exact Or.inl (Or.inl (isFirst ▸ found.2.symm))
            · exact Or.inr ⟨entry, later, found⟩
      · rw [if_neg fun equal => same (Std.compare_eq_iff_eq.mp equal)]
        constructor
        · rintro (old | ⟨entry, later, found⟩)
          · exact Or.inl old
          · exact Or.inr ⟨entry, List.mem_cons_of_mem first later, found⟩
        · rintro (old | ⟨entry, member, found⟩)
          · exact Or.inl old
          · rcases List.mem_cons.mp member with isFirst | later
            · exact (same (isFirst ▸ found.1)).elim
            · exact Or.inr ⟨entry, later, found⟩

end MarkovDecision
