import Mathlib.Data.List.Forall2
import Mathlib.Data.List.Perm.Basic
import MarkovDecision.Proofs.Closure
import MarkovDecision.Proofs.Folds

/-!
# Renamings

A renaming gives new names to all labels and keeps their order.  Tables and sets see nothing of
their keys but the order, so whatever is done to a table and to its image under a renaming leaves a
table and its image: they are filled alike, and their entries are listed in the same order.
-/

namespace MarkovDecision

open Std (TreeMap TransOrd OrientedCmp LawfulEqOrd ReflCmp)

variable {S T V W : Type} [Ord S] [Ord T]

/-- The labels of one order are the new names of those of another, in the same order. -/
structure IsRenaming (rename : S → T) : Prop where
  compare_eq : ∀ first second, compare (rename first) (rename second) = compare first second
  surjective : Function.Surjective rename

theorem isRenaming_id : IsRenaming (id : S → S) :=
  ⟨fun _ _ => rfl, Function.surjective_id⟩

variable {rename : S → T}

theorem IsRenaming.rename_eq_iff [TransOrd T] [LawfulEqOrd T] (isRenaming : IsRenaming rename)
    {first second : S} : rename first = rename second ↔ compare first second = .eq := by
  rw [← isRenaming.compare_eq, Std.compare_eq_iff_eq]

/-- Lists in ascending order are determined by their members, and so by the new names of them. -/
theorem IsRenaming.eq_map_of_ascending [TransOrd S] [TransOrd T] (isRenaming : IsRenaming rename)
    {labels : List S} {names : List T}
    (ascending : labels.Pairwise fun first second => compare first second = .lt)
    (namesAscending : names.Pairwise fun first second => compare first second = .lt)
    (mem_iff : ∀ name, name ∈ names ↔ ∃ label ∈ labels, rename label = name) :
    names = labels.map rename := by
  have irreflexive {L : Type} [Ord L] [TransOrd L] {first second : L}
      (isLess : compare first second = .lt) : first ≠ second := by
    rintro rfl
    have same : compare first first = .eq := ReflCmp.compare_self
    rw [same] at isLess
    cases isLess
  have renamedAscending :
      (labels.map rename).Pairwise fun first second => compare first second = .lt := by
    rw [List.pairwise_map]
    exact ascending.imp fun isLess => (isRenaming.compare_eq _ _).trans isLess
  refine List.Perm.eq_of_pairwise ?_ namesAscending renamedAscending ?_
  · intro first second _ _ isLess isGreater
    rw [OrientedCmp.gt_of_lt isLess] at isGreater
    cases isGreater
  · rw [List.perm_ext_iff_of_nodup (namesAscending.imp irreflexive)
      (renamedAscending.imp irreflexive)]
    intro name
    rw [mem_iff, List.mem_map]

section Tables

/-- A table holds under the new names what another table holds under the old ones, up to a relation
between their values. -/
def TableImage (rename : S → T) (related : V → W → Prop) (table : TreeMap S V)
    (image : TreeMap T W) : Prop :=
  ∀ key, Option.Rel related table[key]? image[rename key]?

variable {related : V → W → Prop} {table : TreeMap S V} {image : TreeMap T W}

theorem tableImage_empty : TableImage rename related (∅ : TreeMap S V) (∅ : TreeMap T W) :=
  fun _ => .none

theorem TableImage.getElem?_eq {change : V → W}
    (isImage : TableImage rename (fun value other => change value = other) table image) (key : S) :
    image[rename key]? = table[key]?.map change := by
  have both := isImage key
  generalize table[key]? = found at both ⊢
  generalize image[rename key]? = other at both ⊢
  cases both with
  | some same => rw [Option.map_some, same]
  | none => rfl

theorem TableImage.getElem?_same {image : TreeMap T V} (isImage : TableImage rename Eq table image)
    (key : S) : image[rename key]? = table[key]? := by
  have asChanged : TableImage rename (fun value other => id value = other) table image := isImage
  rw [asChanged.getElem?_eq, Option.map_id, id_eq]

theorem tableImage_of_forall_eq {other : TreeMap S V}
    (sameEntries : ∀ key : S, table[key]? = other[key]?) : TableImage id Eq table other := by
  intro key
  rw [sameEntries]
  change Option.Rel Eq other[key]? other[key]?
  cases other[key]? with
  | some value => exact .some rfl
  | none => exact .none

theorem tableImage_of_getElem?_eq {change : V → W}
    (found : ∀ key, image[rename key]? = table[key]?.map change) :
    TableImage rename (fun value other => change value = other) table image := by
  intro key
  rw [found]
  cases table[key]? with
  | some value => exact .some rfl
  | none => exact .none

theorem TableImage.isSome_eq (isImage : TableImage rename related table image) (key : S) :
    image[rename key]?.isSome = table[key]?.isSome := by
  have both := isImage key
  generalize table[key]? = found at both ⊢
  generalize image[rename key]? = other at both ⊢
  cases both <;> rfl

theorem TableImage.getD (isImage : TableImage rename related table image) (key : S) (fallback : V)
    (otherFallback : W) (fallbacks : related fallback otherFallback) :
    related (table[key]?.getD fallback) (image[rename key]?.getD otherFallback) := by
  have both := isImage key
  generalize table[key]? = found at both ⊢
  generalize image[rename key]? = other at both ⊢
  cases both with
  | some isRelated => exact isRelated
  | none => exact fallbacks

variable [TransOrd S] [TransOrd T]

theorem TableImage.contains_eq (isImage : TableImage rename related table image) (key : S) :
    image.contains (rename key) = table.contains key := by
  rw [TreeMap.contains_eq_isSome_getElem?, TreeMap.contains_eq_isSome_getElem?, isImage.isSome_eq]

variable (isRenaming : IsRenaming rename)
include isRenaming

theorem TableImage.alter (isImage : TableImage rename related table image) (key : S)
    {update : Option V → Option V} {otherUpdate : Option W → Option W}
    (updates : Option.Rel related (update table[key]?) (otherUpdate image[rename key]?)) :
    TableImage rename related (table.alter key update) (image.alter (rename key) otherUpdate) := by
  intro other
  rw [TreeMap.getElem?_alter, TreeMap.getElem?_alter, isRenaming.compare_eq]
  split
  · exact updates
  · exact isImage other

theorem TableImage.modify (isImage : TableImage rename related table image) (key : S)
    {update : V → V} {otherUpdate : W → W}
    (updates : ∀ {value other}, related value other → related (update value) (otherUpdate other)) :
    TableImage rename related (table.modify key update)
      (image.modify (rename key) otherUpdate) := by
  intro other
  rw [TreeMap.getElem?_modify, TreeMap.getElem?_modify, isRenaming.compare_eq]
  split
  · have both := isImage key
    generalize table[key]? = found at both ⊢
    generalize image[rename key]? = otherFound at both ⊢
    cases both with
    | some isRelated => exact .some (updates isRelated)
    | none => exact .none
  · exact isImage other

theorem TableImage.insert (isImage : TableImage rename related table image) (key : S) {value : V}
    {other : W} (isRelated : related value other) :
    TableImage rename related (table.insert key value) (image.insert (rename key) other) := by
  intro label
  rw [TreeMap.getElem?_insert, TreeMap.getElem?_insert, isRenaming.compare_eq]
  split
  · exact .some isRelated
  · exact isImage label

variable [LawfulEqOrd T]

theorem TableImage.keys_eq (isImage : TableImage rename related table image) :
    image.keys = table.keys.map rename := by
  refine isRenaming.eq_map_of_ascending TreeMap.ordered_keys TreeMap.ordered_keys ?_
  intro name
  obtain ⟨key, rfl⟩ := isRenaming.surjective name
  simp only [TreeMap.mem_keys, TreeMap.mem_iff_contains, isImage.contains_eq,
    contains_iff_exists_mem_keys, isRenaming.rename_eq_iff]

theorem TableImage.toList (isImage : TableImage rename related table image) :
    List.Forall₂ (fun entry other => rename entry.1 = other.1 ∧ related entry.2 other.2)
      table.toList image.toList := by
  have sameKeys := isImage.keys_eq isRenaming
  rw [← TreeMap.map_fst_toList_eq_keys, ← TreeMap.map_fst_toList_eq_keys, List.map_map] at sameKeys
  have holds : ∀ entry ∈ table.toList, ∀ other ∈ image.toList, rename entry.1 = other.1 →
      related entry.2 other.2 := by
    intro entry member other otherMem same
    have both := isImage entry.1
    rw [same, getElem?_of_mem_toList member, getElem?_of_mem_toList otherMem] at both
    cases both with
    | some isRelated => exact isRelated
  generalize table.toList = entries at sameKeys holds ⊢
  generalize image.toList = others at sameKeys holds ⊢
  induction entries generalizing others with
  | nil =>
      rw [List.map_nil, List.map_eq_nil_iff] at sameKeys
      rw [sameKeys]
      exact .nil
  | cons entry entries ih =>
      cases others with
      | nil => cases sameKeys
      | cons other others =>
          rw [List.map_cons, List.map_cons, List.cons.injEq] at sameKeys
          refine .cons ⟨sameKeys.1.symm, holds entry (by simp) other (by simp) sameKeys.1.symm⟩
            (ih others sameKeys.2 fun later laterMem otherLater otherLaterMem =>
              holds later (by simp [laterMem]) otherLater (by simp [otherLaterMem]))

theorem TableImage.map_toList (isImage : TableImage rename related table image) {X : Type}
    (make : S × V → X) (otherMake : T × W → X)
    (madeEq : ∀ key {value other}, related value other →
      otherMake (rename key, other) = make (key, value)) :
    image.toList.map otherMake = table.toList.map make := by
  have listed := isImage.toList isRenaming
  generalize table.toList = entries at listed ⊢
  generalize image.toList = others at listed ⊢
  induction listed with
  | nil => rfl
  | @cons entry other entries others same _ ih =>
      obtain ⟨sameKey, isRelated⟩ := same
      have made := madeEq entry.1 isRelated
      rw [sameKey] at made
      rw [List.map_cons, List.map_cons, ih]
      exact congrArg (· :: entries.map make) made

theorem TableImage.toList_eq_map {change : V → W}
    (isImage : TableImage rename (fun value other => change value = other) table image) :
    image.toList = table.toList.map fun entry => (rename entry.1, change entry.2) := by
  have made := isImage.map_toList isRenaming (fun entry => (rename entry.1, change entry.2)) id
    fun _ _ _ same => by rw [same, id_eq]
  rwa [List.map_id] at made

theorem TableImage.toList_same {image : TreeMap T V} (isImage : TableImage rename Eq table image) :
    image.toList = table.toList.map fun entry => (rename entry.1, entry.2) := by
  have asChanged : TableImage rename (fun value other => id value = other) table image := isImage
  exact asChanged.toList_eq_map isRenaming

omit isRenaming in
theorem TableImage.equiv [LawfulEqOrd S] {other : TreeMap S V} (isImage : TableImage id Eq table other) :
    table.Equiv other :=
  TreeMap.Equiv.of_forall_constGet?_eq fun key => (isImage.getElem?_same key).symm

omit isRenaming in
theorem TableImage.filter_same [LawfulEqOrd S] {image : TreeMap T V} (isImage : TableImage rename Eq table image)
    {test : S → V → Bool} {otherTest : T → V → Bool}
    (sameTest : ∀ key value, otherTest (rename key) value = test key value) :
    TableImage rename Eq (table.filter test) (image.filter otherTest) := by
  intro key
  rw [TreeMap.getElem?_filter', TreeMap.getElem?_filter', isImage.getElem?_same,
    funext (sameTest key)]
  cases table[key]?.filter (test key) with
  | some value => exact .some rfl
  | none => exact .none

theorem exists_tableImage (table : TreeMap S V) (change : V → W) :
    ∃ image : TreeMap T W, TableImage rename (fun value other => change value = other) table
      image := by
  let entries := table.toList.map fun entry => (rename entry.1, change entry.2)
  have distinct : (entries.map fun entry => entry.1).Nodup := by
    rw [List.map_map, List.Nodup, List.pairwise_map]
    exact TreeMap.distinct_keys_toList.imp fun apart same =>
      apart (isRenaming.rename_eq_iff.mp same)
  refine ⟨entries.foldl (fun image entry => image.insert entry.1 entry.2) ∅,
    tableImage_of_getElem?_eq fun key => ?_⟩
  cases found : table[key]? with
  | some value =>
      obtain ⟨stored, same, member⟩ :=
        TreeMap.getElem?_eq_some_iff_exists_compare_eq_eq_and_mem_toList.mp found
      apply getElem?_foldl_insert_of_mem distinct
      rw [isRenaming.rename_eq_iff.mpr same]
      exact List.mem_map.mpr ⟨(stored, value), member, rfl⟩
  | none =>
      rw [getElem?_foldl_insert_of_notMem, TreeMap.getElem?_emptyc, Option.map_none]
      intro entry member sameKey
      obtain ⟨stored, storedMem, rfl⟩ := List.mem_map.mp member
      rw [← TreeMap.getElem?_congr (isRenaming.rename_eq_iff.mp sameKey),
        getElem?_of_mem_toList storedMem] at found
      cases found

end Tables

section Sets

/-- A set has the new names of the members of another set. -/
def SetImage (rename : S → T) (members : LabelSet S) (image : LabelSet T) : Prop :=
  ∀ label, image.contains (rename label) = members.contains label

theorem setImage_empty : SetImage rename (∅ : LabelSet S) (∅ : LabelSet T) :=
  fun _ => rfl

theorem SetImage.mem_iff {members : LabelSet S} {image : LabelSet T}
    (isImage : SetImage rename members image) (label : S) :
    rename label ∈ image ↔ label ∈ members := by
  rw [Std.TreeSet.mem_iff_contains, Std.TreeSet.mem_iff_contains, isImage]

variable [TransOrd S] [TransOrd T] (isRenaming : IsRenaming rename) {members : LabelSet S}
  {image : LabelSet T}
include isRenaming

theorem SetImage.insert (isImage : SetImage rename members image) (label : S) :
    SetImage rename (members.insert label) (image.insert (rename label)) := by
  intro other
  rw [Std.TreeSet.contains_insert, Std.TreeSet.contains_insert, isRenaming.compare_eq, isImage]

theorem SetImage.toList_eq_map [LawfulEqOrd T] (isImage : SetImage rename members image) :
    image.toList = members.toList.map rename := by
  refine isRenaming.eq_map_of_ascending Std.TreeSet.ordered_toList Std.TreeSet.ordered_toList ?_
  intro name
  obtain ⟨label, rfl⟩ := isRenaming.surjective name
  simp only [Std.TreeSet.mem_toList, Std.TreeSet.mem_iff_contains, isImage label,
    isRenaming.rename_eq_iff]
  exact contains_iff_exists_mem_keys members.inner label

theorem exists_setImage [LawfulEqOrd T] (members : LabelSet S) :
    ∃ image : LabelSet T, SetImage rename members image := by
  classical
  refine ⟨.ofList (members.toList.map rename), fun label => ?_⟩
  rw [Bool.eq_iff_iff, Std.TreeSet.contains_ofList, List.contains_iff_mem, List.mem_map]
  simp only [isRenaming.rename_eq_iff]
  exact (contains_iff_exists_mem_keys members.inner label).symm

end Sets

section Searches

variable [TransOrd S] [TransOrd T] (isRenaming : IsRenaming rename)
include isRenaming

/-- A search that discovers the new names of labels discovers them when they are new. -/
theorem discover_image (found : LabelSet S × List S) (other : LabelSet T × List T)
    (seen : SetImage rename found.1 other.1) (newest : other.2 = found.2.map rename) (label : S) :
    SetImage rename (discover found label).1 (discover other (rename label)).1 ∧
      (discover other (rename label)).2 = (discover found label).2.map rename := by
  unfold discover
  rw [seen label]
  split
  · exact ⟨seen, newest⟩
  · exact ⟨seen.insert isRenaming label, by rw [newest, List.map_cons]⟩

theorem foldl_discover_image (found : LabelSet S × List S) (other : LabelSet T × List T)
    (seen : SetImage rename found.1 other.1) (newest : other.2 = found.2.map rename)
    (labels : List S) :
    SetImage rename (labels.foldl discover found).1 ((labels.map rename).foldl discover other).1 ∧
      ((labels.map rename).foldl discover other).2 =
        (labels.foldl discover found).2.map rename := by
  induction labels generalizing found other with
  | nil => exact ⟨seen, newest⟩
  | cons label labels ih =>
      obtain ⟨seenNext, newestNext⟩ := discover_image isRenaming found other seen newest label
      exact ih _ _ seenNext newestNext

variable {neighbours : S → List S} {otherNeighbours : T → List T}
  (neighboursEq : ∀ label, otherNeighbours (rename label) = (neighbours label).map rename)
include neighboursEq

theorem grow_image (rounds : Nat) {seen : LabelSet S} {otherSeen : LabelSet T}
    (isImage : SetImage rename seen otherSeen) (newest : List S) :
    SetImage rename (grow neighbours rounds seen newest)
      (grow otherNeighbours rounds otherSeen (newest.map rename)) := by
  induction rounds generalizing seen otherSeen newest with
  | zero => exact isImage
  | succ rounds ih =>
      have nextEq : (newest.map rename).flatMap otherNeighbours =
          (newest.flatMap neighbours).map rename := by
        rw [List.flatMap_map, List.map_flatMap]
        simp only [neighboursEq]
      obtain ⟨seenNext, foundNext⟩ := foldl_discover_image isRenaming (seen, []) (otherSeen, [])
        isImage rfl (newest.flatMap neighbours)
      simp only [grow, nextEq, foundNext, List.isEmpty_map]
      split
      · exact seenNext
      · exact ih seenNext _

theorem closure_image (bound : Nat) (seeds : List S) :
    SetImage rename (closure neighbours bound seeds)
      (closure otherNeighbours bound (seeds.map rename)) := by
  obtain ⟨seenFirst, foundFirst⟩ := foldl_discover_image isRenaming (∅, []) (∅, [])
    setImage_empty rfl seeds
  simp only [closure, foundFirst]
  exact grow_image isRenaming neighboursEq bound seenFirst _

end Searches

end MarkovDecision
