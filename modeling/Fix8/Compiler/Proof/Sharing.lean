import Fix8.Compiler.Generate
import Fix8.Compiler.Proof.Load
import Mathlib.Data.List.Forall2

/-!
# Shared groups

A group class is written from the group that `globmap` has under the same count field and hash, and
so are the classes inside it. The hash is one of the tags, at every depth.

* `Emits`: the classes that are compiled, as a relation; `groupClasses_iff` connects it to the code;
* `emits_hash`: what is compiled for a hash has that hash;
* **`traits_preserved_iff`**: when every group class has the traits of its own group.
-/

namespace Fix8.Compiler

open Codec (F8String ascii)
open Lib

/-! ## What the groups define -/

mutual

/-- The class that a group defines. -/
def MessageSpec.groupClass (n : Nat) : MessageSpec → GroupClass
  | .mk _ _ fields groups _ _ => .mk n (fields.entries.map (·.2)) (definedClasses groups)

def definedClasses : List (Nat × MessageSpec) → List GroupClass
  | [] => []
  | (n, g) :: groups => g.groupClass n :: definedClasses groups

end

/-- Every message has the group classes that its groups define. -/
def Schema.TraitsPreserved (s : Schema) : Prop :=
  ∀ k ms, (processOrdering (loadMessages s).mspec).get? k = some ms →
    ∃ fuel, groupClasses (processGroupOrdering (loadMessages s).glob.globmap) fuel ms =
      some (definedClasses ms.groups)

/-- Groups with the same count field and the same hash have the same definition. -/
def Schema.HashSeparates (s : Schema) : Prop :=
  ∀ n g g', InMessage (loadMessages s).mspec n g → InMessage (loadMessages s).mspec n g' →
    groupHash g = groupHash g' → g.groupClass n = g'.groupClass n

section
variable {globmap : CommonGroupMap} {n vers : Nat} {key : UInt32} {g g' t : MessageSpec}
  {groups groups' : List (Nat × MessageSpec)} {classes classes' : List GroupClass}
  {common : List ((Nat × Nat) × List FieldTrait)}

theorem groupClass_eq : g.groupClass n = .mk n g.traits (definedClasses g.groups) := by
  cases g
  rfl

theorem definedClasses_eq : definedClasses groups = groups.map fun x => x.2.groupClass x.1 := by
  induction groups with
  | nil => rfl
  | cons x groups ih => rw [definedClasses, List.map_cons, ih]

/-! ## The common traits -/

theorem lookup_variants (n vers k : Nat) : ∀ entries : List (Nat × MessageSpec),
    lookupKey k entries = some t → 1 < t.groupRefcnt →
    ((entries.zipIdx vers).filterMap fun v =>
      if 1 < v.1.2.groupRefcnt then some ((n, 1 + v.2), v.1.2.traits) else none).lookup
        (n, 1 + (vers + (entries.map Prod.fst).idxOf k)) = some t.traits
  | [], h, _ => by cases h
  | e :: entries, h, hcnt => by
    rw [List.zipIdx_cons, List.map_cons]
    unfold lookupKey at h
    split at h
    · rename_i hk
      obtain rfl := Option.some.inj h
      subst hk
      rw [List.idxOf_cons_self, List.filterMap_cons]
      dsimp only
      rw [if_pos hcnt]
      simp
    · rename_i hk
      have hrest := lookup_variants n (vers + 1) k entries h hcnt
      have hpos : 1 + (vers + ((entries.map Prod.fst).idxOf k + 1)) =
          1 + (vers + 1 + (entries.map Prod.fst).idxOf k) := by
        omega
      rw [List.idxOf_cons_ne _ hk, Nat.succ_eq_add_one, hpos, List.filterMap_cons]
      dsimp only
      split
      · exact hrest
      · rename_i b hb
        split at hb
        · obtain rfl := Option.some.inj hb
          have hne : ((n, 1 + (vers + 1 + (entries.map Prod.fst).idxOf k)) == (n, 1 + vers)) = false := by
            simp
            omega
          rw [List.lookup_cons, hne]
          exact hrest
        · cases hb

/-- The table that a shared class refers to is that of the group that was found. -/
theorem lookup_common (h : findGroup globmap n key = some (vers, t)) (hcnt : 1 < t.groupRefcnt) :
    (commonGroupBodies globmap).lookup (n, vers) = some t.traits := by
  obtain ⟨variants, hvariants, h'⟩ := Option.bind_eq_some_iff.1 h
  obtain ⟨t', ht, h'⟩ := Option.map_eq_some_iff.1 h'
  cases h'
  have hvariants : lookupKey n globmap.entries = some variants := hvariants
  unfold commonGroupBodies
  generalize globmap.entries = entries at hvariants ⊢
  clear h
  induction entries with
  | nil => cases hvariants
  | cons e entries ih =>
    rw [List.flatMap_cons, List.lookup_append]
    unfold lookupKey at hvariants
    split at hvariants
    · rename_i hn
      obtain rfl := Option.some.inj hvariants
      subst hn
      have hown := lookup_variants e.1 0 key.toNat e.2.entries ht hcnt
      rw [Nat.zero_add] at hown
      rw [show e.2.keys = e.2.entries.map Prod.fst from rfl, hown]
      rfl
    · rename_i hn
      have hother : ∀ v, (e.2.entries.zipIdx.filterMap fun v =>
          if 1 < v.1.2.groupRefcnt then some ((e.1, 1 + v.2), v.1.2.traits) else none).lookup (n, v) =
            none := by
        intro v
        refine List.lookup_eq_none_iff.2 fun p hp => ?_
        obtain ⟨w, -, hw⟩ := List.mem_filterMap.1 hp
        split at hw
        · obtain rfl := Option.some.inj hw
          simp [Ne.symm hn]
        · cases hw
      rw [hother, Option.none_or]
      exact ih hvariants

/-! ## `globmap` in order -/

theorem lookupGroup_ordering : lookupGroup (processGroupOrdering globmap) n key =
    (lookupGroup globmap n key).map fun g =>
      g.withGroups (processMessageGroupOrdering g.groups) := by
  unfold lookupGroup processGroupOrdering
  rw [OrdMap.get?_mapVal]
  cases globmap.get? n with
  | none => rfl
  | some variants =>
    show (variants.mapVal _).get? key.toNat = (variants.get? key.toNat).map _
    rw [OrdMap.get?_mapVal]

theorem findGroup_of_lookup (h : lookupGroup globmap n key = some t) :
    ∃ vers, findGroup globmap n key = some (vers, t) := by
  obtain ⟨variants, hvariants, ht⟩ := Option.bind_eq_some_iff.1 h
  refine ⟨1 + variants.keys.idxOf key.toNat, ?_⟩
  unfold findGroup
  rw [hvariants, Option.bind_some, ht]
  rfl

/-- The count fields and the hashes of groups, which is what their classes are written from. -/
def groupKeys (groups : List (Nat × MessageSpec)) : List (Nat × UInt32) :=
  groups.map fun x => (x.1, x.2.hash)

theorem groupKeys_ordering : groupKeys (processMessageGroupOrdering groups) = groupKeys groups := by
  induction groups with
  | nil => rfl
  | cons x groups ih =>
    obtain ⟨n, g⟩ := x
    have hhash : (orderGroup g).hash = g.hash := by
      cases g
      rfl
    show (n, (orderGroup g).hash) :: groupKeys (processMessageGroupOrdering groups) = _
    rw [hhash, ih]
    rfl

/-! ## What is emitted -/

/-- The classes that are compiled for groups: each from the group that is found for it. -/
def Emits (globmap : CommonGroupMap) :
    Nat → List (Nat × MessageSpec) → List GroupClass → Prop
  | 0, _, _ => False
  | fuel + 1, groups, classes =>
    List.Forall₂ (fun x c => ∃ t nested, lookupGroup globmap x.1 x.2.hash = some t ∧
      Emits globmap fuel t.groups nested ∧ c = .mk x.1 t.traits nested) groups classes

theorem compileBodies_eq_some {α : Type} {f : α → Option GroupBody} {xs : List α} :
    (xs.mapM f).bind (compileBodies common) = some classes ↔
      List.Forall₂ (fun x c => (f x).bind (GroupBody.compile common) = some c) xs classes := by
  induction xs generalizing classes with
  | nil =>
    rw [List.mapM_nil]
    show some [] = some classes ↔ _
    rw [List.forall₂_nil_left_iff, Option.some_inj]
    exact eq_comm
  | cons x xs ih =>
    rw [List.mapM_cons, List.forall₂_cons_left_iff]
    constructor
    · intro h
      obtain ⟨bodies, hbodies, h⟩ := Option.bind_eq_some_iff.1 h
      obtain ⟨b, hb, hbodies⟩ := Option.bind_eq_some_iff.1 hbodies
      obtain ⟨bodies', hbodies', hbodies⟩ := Option.bind_eq_some_iff.1 hbodies
      obtain rfl := Option.some.inj hbodies
      obtain ⟨c, hc, h⟩ := Option.bind_eq_some_iff.1 h
      obtain ⟨classes', hclasses', h⟩ := Option.bind_eq_some_iff.1 h
      obtain rfl := Option.some.inj h
      refine ⟨c, classes', ?_, ih.1 ?_, rfl⟩
      · rw [hb]
        exact hc
      · rw [hbodies']
        exact hclasses'
    · rintro ⟨c, classes', hc, hrest, rfl⟩
      obtain ⟨b, hb, hc⟩ := Option.bind_eq_some_iff.1 hc
      obtain ⟨bodies, hbodies, hclasses⟩ := Option.bind_eq_some_iff.1 (ih.2 hrest)
      rw [hb, hbodies]
      show (do
        let c ← b.compile common
        let classes ← compileBodies common bodies
        pure (c :: classes)) = _
      rw [hc, hclasses]
      rfl

variable {P : Nat → MessageSpec → Prop}

/-- The groups `P` are those of `globmap`, and with a group also the groups inside it. -/
structure Closed (globmap : CommonGroupMap) (P : Nat → MessageSpec → Prop) : Prop where
  stocked : Stocked globmap P
  inside : ∀ n m g g', P n g → (m, g') ∈ g.groups → P m g'
  hash : ∀ n g, P n g → g.hash = groupHash g

/-- What is found for one of the groups, and that the groups inside it are of them too. -/
theorem Closed.found (h : Closed globmap P) (hP : P n g) : ∃ t g', lookupGroup globmap n g.hash = some t ∧
    P n g' ∧ g'.hash = g.hash ∧ t.fields = g'.fields ∧ t.groups = g'.groups := by
  obtain ⟨t, ht⟩ := Option.isSome_iff_exists.1 (h.stocked.found n g hP)
  obtain ⟨g', hrest⟩ := h.stocked.origin n _ t ht
  exact ⟨t, g', ht, hrest⟩

theorem Closed.inner (h : Closed globmap P) (ht : lookupGroup globmap n key = some t) :
    ∀ x ∈ t.groups, P x.1 x.2 := by
  obtain ⟨g, hP, -, -, hgroups⟩ := h.stocked.origin n key t ht
  rintro ⟨m, g'⟩ hx
  rw [hgroups] at hx
  exact h.inside n m g g' hP hx

/-- The class of one group that has been found. -/
theorem body_iff {fuel : Nat} {c : GroupClass} (h : findGroup globmap n key = some (vers, t)) :
    ((generateGroupBodies globmap fuel t.groups).bind fun nested =>
        some (GroupBody.mk n (if 1 < t.groupRefcnt then .common n vers else .own t.traits)
          t.traits.length nested)).bind (GroupBody.compile (commonGroupBodies globmap)) = some c ↔
      ∃ nested, (generateGroupBodies globmap fuel t.groups).bind
        (compileBodies (commonGroupBodies globmap)) = some nested ∧ c = .mk n t.traits nested := by
  have htable : (if 1 < t.groupRefcnt then StaticTraits.common n vers else .own t.traits).table
      (commonGroupBodies globmap) = some t.traits := by
    split
    · rename_i hcnt
      exact lookup_common h hcnt
    · rfl
  cases generateGroupBodies globmap fuel t.groups with
  | none => exact iff_of_false (fun h => by cases h) (fun ⟨_, h, _⟩ => by cases h)
  | some bodies =>
    rw [Option.bind_some, Option.bind_some, Option.bind_some]
    unfold GroupBody.compile
    rw [htable]
    cases compileBodies (commonGroupBodies globmap) bodies with
    | none => exact iff_of_false (fun h => by cases h) (fun ⟨_, h, _⟩ => by cases h)
    | some nested =>
      show some (GroupClass.mk n (t.traits.take t.traits.length) nested) = some c ↔ _
      rw [List.take_length]
      constructor
      · intro h
        exact ⟨nested, rfl, (Option.some.inj h).symm⟩
      · rintro ⟨nested', hnested, rfl⟩
        cases hnested
        rfl

/-- `generate_group_bodies` on `globmap` in order, for groups with the same keys as these. -/
theorem generate_iff (h : Closed globmap P) {fuel : Nat} : ∀ {groups groups' classes},
    (∀ x ∈ groups, P x.1 x.2) → groupKeys groups' = groupKeys groups →
    ((generateGroupBodies (processGroupOrdering globmap) fuel groups').bind
        (compileBodies (commonGroupBodies (processGroupOrdering globmap))) = some classes ↔
      Emits globmap fuel groups classes) := by
  induction fuel with
  | zero =>
    intro groups groups' classes _ _
    exact iff_of_false (fun h => by cases h) id
  | succ fuel ih =>
    intro groups groups' classes hP hkeys
    unfold generateGroupBodies Emits
    dsimp only
    rw [compileBodies_eq_some]
    induction groups generalizing groups' classes with
    | nil =>
      obtain rfl : groups' = [] := List.map_eq_nil_iff.1 hkeys
      rw [List.filterMap_nil, List.forall₂_nil_left_iff, List.forall₂_nil_left_iff]
    | cons x groups ihg =>
      cases groups' with
      | nil => cases hkeys
      | cons y groups' =>
        obtain ⟨hkey, hrest⟩ := List.cons_eq_cons.1 hkeys
        obtain ⟨hnum, hhash⟩ := Prod.mk.injEq .. ▸ hkey
        obtain ⟨t, g', ht, -⟩ := h.found (hP x List.mem_cons_self)
        have hordered : lookupGroup (processGroupOrdering globmap) y.1 y.2.hash =
            some (t.withGroups (processMessageGroupOrdering t.groups)) := by
          rw [hnum, hhash, lookupGroup_ordering, ht]
          rfl
        obtain ⟨vers, hfind⟩ := findGroup_of_lookup hordered
        have htraits : (t.withGroups (processMessageGroupOrdering t.groups)).traits = t.traits := by
          cases t
          rfl
        have hinner : (t.withGroups (processMessageGroupOrdering t.groups)).groups =
            processMessageGroupOrdering t.groups := by
          cases t
          rfl
        have hhead : ∀ c : GroupClass, (∃ nested, (generateGroupBodies (processGroupOrdering globmap) fuel
            (processMessageGroupOrdering t.groups)).bind
              (compileBodies (commonGroupBodies (processGroupOrdering globmap))) = some nested ∧
              c = .mk y.1 t.traits nested) ↔
            ∃ t' nested, lookupGroup globmap x.1 x.2.hash = some t' ∧
              Emits globmap fuel t'.groups nested ∧ c = .mk x.1 t'.traits nested := by
          intro c
          rw [ht, hnum]
          constructor
          · rintro ⟨nested, hnested, rfl⟩
            exact ⟨t, nested, rfl, (ih (h.inner ht) groupKeys_ordering).1 hnested, rfl⟩
          · rintro ⟨t', nested, ht', hnested, rfl⟩
            obtain rfl := Option.some.inj ht'
            exact ⟨nested, (ih (h.inner ht) groupKeys_ordering).2 hnested, rfl⟩
        rw [List.filterMap_cons, hfind, Option.map_some, List.forall₂_cons_left_iff,
          List.forall₂_cons_left_iff]
        refine exists_congr fun c => exists_congr fun classes' => ?_
        refine and_congr ?_ (and_congr_left fun _ => ?_)
        · refine Iff.trans (body_iff hfind) ?_
          rw [hinner, htraits]
          exact hhead c
        · exact ihg (fun x hx => hP x (List.mem_cons_of_mem _ hx)) hrest

/-- What is emitted does not depend on the fuel. -/
theorem Emits.unique {fuel fuel' : Nat} (h : Emits globmap fuel groups classes)
    (h' : Emits globmap fuel' groups classes') : classes = classes' := by
  induction fuel generalizing fuel' groups classes classes' with
  | zero => exact h.elim
  | succ fuel ih =>
    cases fuel' with
    | zero => exact h'.elim
    | succ fuel' =>
      unfold Emits at h h'
      induction groups generalizing classes classes' with
      | nil =>
        rw [List.forall₂_nil_left_iff] at h h'
        rw [h, h']
      | cons x groups ihg =>
        obtain ⟨c, cs, ⟨t, nested, ht, hnested, rfl⟩, hrest, rfl⟩ := List.forall₂_cons_left_iff.1 h
        obtain ⟨c', cs', ⟨t', nested', ht', hnested', rfl⟩, hrest', rfl⟩ :=
          List.forall₂_cons_left_iff.1 h'
        rw [ht] at ht'
        obtain rfl := Option.some.inj ht'
        rw [ih hnested hnested', ihg hrest hrest']

/-! ## Hashes of classes -/

mutual

/-- `group_hash` of a class. -/
def GroupClass.hash : GroupClass → UInt32
  | .mk _ traits nested =>
    classHashes (traits.foldl (fun result t => rothash result (UInt32.ofNat t.fnum)) 0) nested

def classHashes (result : UInt32) : List GroupClass → UInt32
  | [] => result
  | c :: classes => classHashes (rothash result c.hash) classes

end

theorem groupHash_eq : groupHash g = groupHashes
    (g.traits.foldl (fun result t => rothash result (UInt32.ofNat t.fnum)) 0) g.groups := by
  obtain ⟨name, isAdmin, fields, groups, groupRefcnt, hash⟩ := g
  rw [groupHash]
  show _ = groupHashes ((fields.entries.map (·.2)).foldl _ 0) groups
  rw [List.foldl_map]

mutual

/-- The hash of a group is that of the class that it defines. -/
theorem groupClass_hash (n : Nat) : ∀ g : MessageSpec, (g.groupClass n).hash = groupHash g
  | .mk name isAdmin fields groups groupRefcnt hash => by
    rw [groupHash_eq]
    exact definedClasses_hash groups _

theorem definedClasses_hash : ∀ (groups : List (Nat × MessageSpec)) (result : UInt32),
    classHashes result (definedClasses groups) = groupHashes result groups
  | [], _ => rfl
  | (n, g) :: groups, result => by
    rw [definedClasses, classHashes, groupHashes, groupClass_hash n g]
    exact definedClasses_hash groups _

end

/-- A class with the traits that are found for a hash, and classes for the groups found, has it. -/
theorem class_hash {nested : List GroupClass} (h : Closed globmap P)
    (ht : lookupGroup globmap n key = some t)
    (hnested : ∀ result, classHashes result nested = groupHashes result t.groups) :
    (GroupClass.mk n t.traits nested).hash = key := by
  obtain ⟨g, hP, hkey, hfields, hgroups⟩ := h.stocked.origin n key t ht
  rw [← hkey, h.hash n g hP, groupHash_eq, GroupClass.hash, hnested, hgroups, MessageSpec.traits,
    hfields]
  rfl

/-- What is compiled for a hash has that hash: the hash is one of the tags, whichever group they are
found with. -/
theorem emits_hash (h : Closed globmap P) {fuel : Nat} : ∀ {groups classes} {result : UInt32},
    (∀ x ∈ groups, P x.1 x.2) → Emits globmap fuel groups classes →
    classHashes result classes = groupHashes result groups := by
  induction fuel with
  | zero => exact fun _ hemits => hemits.elim
  | succ fuel ih =>
    intro groups classes result hP hemits
    unfold Emits at hemits
    induction groups generalizing classes result with
    | nil =>
      rw [List.forall₂_nil_left_iff] at hemits
      rw [hemits]
      rfl
    | cons x groups ihg =>
      obtain ⟨c, cs, ⟨t, nested, ht, hnested, rfl⟩, hrest, rfl⟩ := List.forall₂_cons_left_iff.1 hemits
      have hclass : (GroupClass.mk x.1 t.traits nested).hash = groupHash x.2 := by
        rw [class_hash h ht fun result => ih (h.inner ht) hnested]
        exact h.hash x.1 x.2 (hP x List.mem_cons_self)
      rw [classHashes, hclass, ihg (fun x hx => hP x (List.mem_cons_of_mem _ hx)) hrest]
      rfl

/-! ## Preserved traits -/

/-- A group has its own class compiled. -/
def Preserved (globmap : CommonGroupMap) (n : Nat) (g : MessageSpec) : Prop :=
  ∃ fuel t, lookupGroup globmap n g.hash = some t ∧ t.traits = g.traits ∧
    Emits globmap fuel t.groups (definedClasses g.groups)

theorem preserved_of_emits {fuel : Nat} (h : Emits globmap fuel groups (definedClasses groups)) :
    ∀ x ∈ groups, Preserved globmap x.1 x.2 := by
  cases fuel with
  | zero => exact h.elim
  | succ fuel =>
    unfold Emits at h
    intro x hx
    rw [definedClasses_eq, List.forall₂_map_right_iff, List.forall₂_same] at h
    obtain ⟨t, nested, ht, hnested, hclass⟩ := h x hx
    rw [groupClass_eq] at hclass
    injection hclass with _ htraits hnested'
    subst hnested'
    exact ⟨fuel, t, ht, htraits.symm, hnested⟩

theorem forall₂_mem_right {α β : Type} {R : α → β → Prop} {as : List α} {bs : List β}
    (h : List.Forall₂ R as bs) : ∀ b ∈ bs, ∃ a ∈ as, R a b := by
  induction h with
  | nil => exact fun b hb => absurd hb List.not_mem_nil
  | cons hab _ ih =>
    intro b hb
    rcases List.mem_cons.1 hb with rfl | hb
    · exact ⟨_, List.mem_cons_self, hab⟩
    · obtain ⟨a, ha, hr⟩ := ih b hb
      exact ⟨a, List.mem_cons_of_mem _ ha, hr⟩

/-- Inside a group whose classes are its own, so are those of its groups. -/
theorem Preserved.inside (h : Preserved globmap n g) (hclosed : Closed globmap P) (hP : P n g) :
    ∀ x ∈ g.groups, Preserved globmap x.1 x.2 := by
  obtain ⟨fuel, t, ht, -, hemits⟩ := h
  cases fuel with
  | zero => exact hemits.elim
  | succ fuel =>
    unfold Emits at hemits
    intro x hx
    rw [definedClasses_eq, List.forall₂_map_right_iff] at hemits
    obtain ⟨y, hy, t', nested, ht', hnested, hclass⟩ := forall₂_mem_right hemits x hx
    -- the group of `globmap` need not be this one, but its groups have the same hashes
    have hhash : y.2.hash = x.2.hash := by
      rw [hclosed.hash x.1 x.2 (hclosed.inside n x.1 g x.2 hP hx), ← groupClass_hash x.1, hclass,
        class_hash hclosed ht' fun result => emits_hash hclosed (hclosed.inner ht') hnested]
    rw [groupClass_eq] at hclass
    injection hclass with hnum htraits hnested'
    subst hnested'
    refine ⟨fuel, t', ?_, htraits.symm, hnested⟩
    rw [hnum, ← hhash]
    exact ht'

/-- Where groups with the same hash are the same, the classes of all groups are emitted. -/
theorem emits_of_separates (h : Closed globmap P)
    (hseparates : ∀ n g g', P n g → P n g' → groupHash g = groupHash g' →
      g.groupClass n = g'.groupClass n) {fuel : Nat} : ∀ {groups : List (Nat × MessageSpec)},
    sizeOf (definedClasses groups) ≤ fuel → (∀ x ∈ groups, P x.1 x.2) →
    Emits globmap fuel groups (definedClasses groups) := by
  induction fuel with
  | zero =>
    intro groups hsize _
    have hpos : 0 < sizeOf (definedClasses groups) := by
      cases definedClasses groups with
      | nil => exact Nat.one_pos
      | cons c classes =>
        rw [List.cons.sizeOf_spec]
        omega
    omega
  | succ fuel ih =>
    intro groups hsize hP
    unfold Emits
    rw [definedClasses_eq, List.forall₂_map_right_iff, List.forall₂_same]
    intro x hx
    obtain ⟨t, g, ht, hPg, hkey, hfields, hgroups⟩ := h.found (hP x hx)
    have hsame : g.groupClass x.1 = x.2.groupClass x.1 := by
      refine hseparates x.1 g x.2 hPg (hP x hx) ?_
      rw [← h.hash x.1 g hPg, hkey, h.hash x.1 x.2 (hP x hx)]
    have hmem : x.2.groupClass x.1 ∈ definedClasses groups := by
      rw [definedClasses_eq]
      exact List.mem_map_of_mem hx
    have hlt := List.sizeOf_lt_of_mem hmem
    refine ⟨t, definedClasses t.groups, ht, ih ?_ (h.inner ht), ?_⟩
    · rw [← hsame, groupClass_eq, GroupClass.mk.sizeOf_spec, ← hgroups] at hlt
      omega
    · rw [← hsame, groupClass_eq, MessageSpec.traits, MessageSpec.traits, hfields, hgroups]

end

section
variable {s : Schema}

theorem closed_loaded (s : Schema) :
    Closed (loadMessages s).glob.globmap (InMessage (loadMessages s).mspec) := by
  obtain ⟨realm, hloaded, -⟩ := loadedFrom_messages s
  refine ⟨hloaded.stocked, ?_, hloaded.hash⟩
  rintro n m g g' ⟨k, ms, hms, hg⟩ hg'
  exact ⟨k, ms, hms, .inside n m g g' hg hg'⟩

theorem groupClasses_iff {k : CString} {ms : MessageSpec} {classes : List GroupClass} {fuel : Nat}
    (h : (loadMessages s).mspec.get? k = some ms) :
    groupClasses (processGroupOrdering (loadMessages s).glob.globmap) fuel ms = some classes ↔
      Emits (loadMessages s).glob.globmap fuel ms.groups classes :=
  generate_iff (closed_loaded s) (fun x hx => ⟨k, ms, h, .here x.1 x.2 hx⟩) rfl

theorem traitsPreserved_iff_emits : s.TraitsPreserved ↔
    ∀ k ms, (loadMessages s).mspec.get? k = some ms →
      ∃ fuel, Emits (loadMessages s).glob.globmap fuel ms.groups (definedClasses ms.groups) := by
  unfold Schema.TraitsPreserved processOrdering
  simp only [OrdMap.get?_mapVal, Option.map_eq_some_iff]
  constructor
  · intro h k ms hms
    obtain ⟨fuel, hfuel⟩ := h k _ ⟨ms, hms, rfl⟩
    rw [MessageSpec.groups_withFields] at hfuel
    refine ⟨fuel, (groupClasses_iff hms).1 ?_⟩
    rw [← hfuel, groupClasses, groupClasses, MessageSpec.groups_withFields]
  · rintro h k _ ⟨ms, hms, rfl⟩
    obtain ⟨fuel, hfuel⟩ := h k ms hms
    refine ⟨fuel, ?_⟩
    rw [MessageSpec.groups_withFields, ← (groupClasses_iff hms).2 hfuel, groupClasses,
      groupClasses, MessageSpec.groups_withFields]

/-- **When sharing preserves traits**: every group class has the trait table of its group, at every
depth, iff any two groups with the same count field and the same hash are defined alike. -/
theorem traits_preserved_iff (s : Schema) : s.TraitsPreserved ↔ s.HashSeparates := by
  have hclosed := closed_loaded s
  rw [traitsPreserved_iff_emits]
  constructor
  · intro h
    have hall : ∀ n g, InMessage (loadMessages s).mspec n g →
        Preserved (loadMessages s).glob.globmap n g := by
      rintro n g ⟨k, ms, hms, hg⟩
      induction hg with
      | here n g hmem =>
        obtain ⟨fuel, hemits⟩ := h k ms hms
        exact preserved_of_emits hemits (n, g) hmem
      | inside n m g g' hg hmem ih => exact ih.inside hclosed ⟨k, ms, hms, hg⟩ (m, g') hmem
    intro n g g' hg hg' hhash
    obtain ⟨fuel, t, ht, htraits, hemits⟩ := hall n g hg
    obtain ⟨fuel', t', ht', htraits', hemits'⟩ := hall n g' hg'
    rw [hclosed.hash n g hg, hhash, ← hclosed.hash n g' hg', ht'] at ht
    obtain rfl := Option.some.inj ht
    rw [groupClass_eq, groupClass_eq, ← htraits, ← htraits', hemits.unique hemits']
  · intro h k ms hms
    exact ⟨_, emits_of_separates hclosed h (le_refl _) fun x hx => ⟨k, ms, hms, .here x.1 x.2 hx⟩⟩

end

/-! ## Two messages with a group -/

/-- A message with the group NoPartyIDs, where PartyID is required or not. -/
def demoParties (msgType : CString) (name required : F8String) : MessageElement where
  tag := .message
  msgtype := some msgType
  name := some name
  msgcat := some (ascii "app")
  groups := [.mk { name := some (ascii "NoPartyIDs"), required := some (ascii "N"), subIdx := 1 }
    [{ name := some (ascii "PartyID"), required := some required, subIdx := 1 }] []]

/-- A schema with two such messages, in one of which it is required. -/
def demoPartySchema : Schema where
  fspec := OrdMap.empty.insert 35 ⟨ascii "MsgType", .string, some [ascii "D", ascii "8"]⟩
    |>.insert 448 ⟨ascii "PartyID", .string, none⟩
    |>.insert 453 ⟨ascii "NoPartyIDs", .numInGroup, none⟩
  components := []
  mlist := [{ tag := .header }, { tag := .trailer },
    demoParties ⟨ascii "D", by decide⟩ (ascii "NewOrderSingle") (ascii "Y"),
    demoParties ⟨ascii "8", by decide⟩ (ascii "ExecutionReport") (ascii "N")]

/-- `find_group` finds the trait table of each group of the message. -/
def findsOwnTraits (st : Loaded) (k : CString) : Bool :=
  (st.mspec.get? k).all fun ms => ms.groups.all fun x =>
    decide ((lookupGroup st.glob.globmap x.1 x.2.hash).map (·.traits) = some x.2.traits)

/-- The group of the execution report gets the traits of that of the order. -/
theorem parties_merged : ¬ ∀ s : Schema, s.TraitsPreserved := by
  intro h
  have hemits := traitsPreserved_iff_emits.1 (h demoPartySchema)
  have hother : findsOwnTraits (loadMessages demoPartySchema) ⟨ascii "8", by decide⟩ = false := by
    decide +kernel
  unfold findsOwnTraits at hother
  cases hms : (loadMessages demoPartySchema).mspec.get? ⟨ascii "8", by decide⟩ with
  | none =>
    rw [hms] at hother
    cases hother
  | some ms =>
    rw [hms, Option.all_some, List.all_eq_false] at hother
    obtain ⟨x, hx, hne⟩ := hother
    obtain ⟨fuel, hfuel⟩ := hemits _ ms hms
    obtain ⟨_, t, ht, htraits, -⟩ := preserved_of_emits hfuel x hx
    rw [ht, Option.map_some, htraits] at hne
    exact hne (decide_eq_true rfl)

end Fix8.Compiler
