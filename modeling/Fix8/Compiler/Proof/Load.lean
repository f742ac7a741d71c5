import Fix8.Compiler.Load

/-!
# What loading a schema leaves

* `Occurs`: a group of a message, at some depth;
* `Stocked`: `globmap` has a group for the count field and the hash of each group parsed so far, and
  each group it has is one of those;
* `parseGroups_added`: what the groups of a message add;
* **`loadedFrom_messages`**: what is known of the messages and of `globmap` after `load_messages`.
-/

namespace Fix8.Compiler

open Codec (F8String ascii)
open Lib

/-! ## Errors -/

section
variable {s : Schema} {st : Glob} {fts : Presence} {flist : List FieldElement}

theorem processMessageField_glob (r : Presence × Glob) (el : FieldElement) :
    (processMessageField s r el).2.globmap = r.2.globmap ∧
      r.2.errors ≤ (processMessageField s r el).2.errors := by
  unfold processMessageField
  split
  · split
    · exact ⟨rfl, Nat.le_succ _⟩
    · dsimp only
      split
      · exact ⟨rfl, le_refl _⟩
      · exact ⟨rfl, le_refl _⟩
  · exact ⟨rfl, Nat.le_succ _⟩

theorem processMessageFields_glob :
    (processMessageFields s fts st flist).2.globmap = st.globmap ∧
      st.errors ≤ (processMessageFields s fts st flist).2.errors := by
  unfold processMessageFields
  have hfold : ∀ r : Presence × Glob,
      (flist.foldl (processMessageField s) r).2.globmap = r.2.globmap ∧
        r.2.errors ≤ (flist.foldl (processMessageField s) r).2.errors := by
    induction flist with
    | nil => exact fun r => ⟨rfl, le_refl _⟩
    | cons el flist ih =>
      intro r
      obtain ⟨hmap, herrors⟩ := processMessageField_glob (s := s) r el
      obtain ⟨hmap', herrors'⟩ := ih (processMessageField s r el)
      exact ⟨hmap'.trans hmap, herrors.trans herrors'⟩
  exact hfold (fts, st)

end

/-! ## Groups -/

/-- The group is one of these, or inside one of them. -/
inductive Occurs (groups : List (Nat × MessageSpec)) : Nat → MessageSpec → Prop where
  | here (n : Nat) (g : MessageSpec) (h : (n, g) ∈ groups) : Occurs groups n g
  | inside (n m : Nat) (g g' : MessageSpec) (h : Occurs groups n g) (h' : (m, g') ∈ g.groups) :
      Occurs groups m g'

/-- The group that `find_group` finds. -/
def lookupGroup (globmap : CommonGroupMap) (tp : Nat) (key : UInt32) : Option MessageSpec :=
  (globmap.get? tp).bind fun variants => variants.get? key.toNat

/-- `globmap` has a group for each of the groups `P`, and nothing else. -/
structure Stocked (globmap : CommonGroupMap) (P : Nat → MessageSpec → Prop) : Prop where
  found : ∀ n g, P n g → (lookupGroup globmap n g.hash).isSome
  origin : ∀ n key t, lookupGroup globmap n key = some t →
    ∃ g, P n g ∧ g.hash = key ∧ t.fields = g.fields ∧ t.groups = g.groups

/-- What parsing groups adds to a message or a group, and to `globmap`. -/
structure Added (ritr ritr' : MessageSpec) (st st' : Glob) (added : List (Nat × MessageSpec)) :
    Prop where
  name : ritr'.name = ritr.name
  errors : st.errors ≤ st'.errors
  groups : ∀ x, x ∈ ritr'.groups ↔ x ∈ ritr.groups ∨ x ∈ added
  hash : ∀ n g, Occurs added n g → g.hash = groupHash g
  stocked : ∀ P, Stocked st.globmap P →
    Stocked st'.globmap fun n g => P n g ∨ Occurs added n g

section
variable {groups groups' added added' : List (Nat × MessageSpec)} {n m : Nat}
  {g g' ritr ritr' ritr'' : MessageSpec} {st st' st'' : Glob} {globmap : CommonGroupMap}
  {P : Nat → MessageSpec → Prop} {s : Schema}

theorem not_occurs_nil : ¬ Occurs [] n g := by
  intro h
  induction h with
  | here _ _ h => exact List.not_mem_nil h
  | inside _ _ _ _ _ _ ih => exact ih

theorem occurs_append : Occurs (groups ++ groups') n g ↔ Occurs groups n g ∨ Occurs groups' n g := by
  constructor
  · intro h
    induction h with
    | here n g h =>
      rcases List.mem_append.1 h with h | h
      · exact .inl (.here n g h)
      · exact .inr (.here n g h)
    | inside n m g g' _ h' ih =>
      rcases ih with ih | ih
      · exact .inl (.inside n m g g' ih h')
      · exact .inr (.inside n m g g' ih h')
  · rintro (h | h)
    · induction h with
      | here n g h => exact .here n g (List.mem_append_left _ h)
      | inside n m g g' _ h' ih => exact .inside n m g g' ih h'
    · induction h with
      | here n g h => exact .here n g (List.mem_append_right _ h)
      | inside n m g g' _ h' ih => exact .inside n m g g' ih h'

/-- Which groups occur depends only on which groups there are. -/
theorem Occurs.congr (hsame : ∀ x, x ∈ groups → x ∈ groups') (h : Occurs groups n g) :
    Occurs groups' n g := by
  induction h with
  | here n g h => exact .here n g (hsame _ h)
  | inside n m g g' _ h' ih => exact .inside n m g g' ih h'

theorem occurs_singleton : Occurs [(m, g)] n g' ↔ (n = m ∧ g' = g) ∨ Occurs g.groups n g' := by
  constructor
  · intro h
    induction h with
    | here n g' h =>
      cases List.mem_singleton.1 h
      exact .inl ⟨rfl, rfl⟩
    | inside n k g₁ g₂ _ h' ih =>
      rcases ih with ⟨rfl, rfl⟩ | ih
      · exact .inr (.here k g₂ h')
      · exact .inr (.inside n k g₁ g₂ ih h')
  · rintro (⟨rfl, rfl⟩ | h)
    · exact .here n g' (List.mem_singleton_self _)
    · induction h with
      | here k g₁ h => exact .inside m k g g₁ (.here m g (List.mem_singleton_self _)) h
      | inside k j g₁ g₂ _ h' ih => exact .inside k j g₁ g₂ ih h'

/-! ## `globmap` -/

theorem get?_add {k : Nat} {hv : UInt32} : (CommonGroupMap.add globmap m hv g).get? k =
    if k = m then
      some (let variants := ((globmap.get? m).getD OrdMap.empty).insert hv.toNat g
        match variants.get? hv.toNat with
        | none => variants
        | some shared =>
          variants.replace hv.toNat ((shared.withRefcnt (shared.groupRefcnt + 1)).withHash hv))
    else globmap.get? k := by
  unfold CommonGroupMap.add
  dsimp only
  split
  · rename_i hsome
    rw [OrdMap.get?_replace]
    obtain ⟨variants, hvariants⟩ := Option.isSome_iff_exists.1 hsome
    rw [hvariants]
    rfl
  · rename_i hnone
    rw [OrdMap.get?_insert]
    rw [Option.not_isSome_iff_eq_none.1 hnone]
    rfl

/-- What `globmap` has once a group is added: under its own key the group that was there, or else
the new one. -/
theorem lookupGroup_add {key hv : UInt32} : lookupGroup (CommonGroupMap.add globmap m hv g) n key =
    if n = m ∧ key = hv then
      some (((((lookupGroup globmap m hv).getD g).withRefcnt
        (((lookupGroup globmap m hv).getD g).groupRefcnt + 1))).withHash hv)
    else lookupGroup globmap n key := by
  unfold lookupGroup
  rw [get?_add]
  by_cases hn : n = m
  · subst hn
    rw [if_pos rfl, Option.bind_some]
    dsimp only
    have hold : ((globmap.get? n).getD OrdMap.empty).get? hv.toNat =
        (globmap.get? n).bind fun variants => variants.get? hv.toNat := by
      cases globmap.get? n with
      | none => rfl
      | some variants => rfl
    have hkey : (((globmap.get? n).getD OrdMap.empty).insert hv.toNat g).get? hv.toNat =
        some (((globmap.get? n).bind fun variants => variants.get? hv.toNat).getD g) := by
      rw [OrdMap.get?_insert, if_pos rfl, hold]
    rw [hkey]
    dsimp only
    rw [OrdMap.get?_replace, hkey]
    by_cases hk : key = hv
    · subst hk
      rw [if_pos rfl, if_pos ⟨rfl, rfl⟩]
      rfl
    · have hne : key.toNat ≠ hv.toNat := fun h => hk (UInt32.toNat_inj.1 h)
      rw [if_neg hne, if_neg fun h => hk h.2, OrdMap.get?_insert_of_ne hne]
      cases globmap.get? n with
      | none => rfl
      | some variants => rfl
  · rw [if_neg hn, if_neg fun h => hn h.1]

theorem Stocked.add (h : Stocked globmap P) (hash : g.hash = groupHash g) :
    Stocked (CommonGroupMap.add globmap m g.hash g) fun n g' => P n g' ∨ (n = m ∧ g' = g) := by
  constructor
  · rintro n g' (hP | ⟨rfl, rfl⟩)
    · rw [lookupGroup_add]
      split
      · rfl
      · exact h.found n g' hP
    · rw [lookupGroup_add, if_pos ⟨rfl, rfl⟩]
      rfl
  · intro n key t ht
    rw [lookupGroup_add] at ht
    split at ht
    · rename_i hkey
      obtain ⟨rfl, rfl⟩ := hkey
      obtain rfl := Option.some.inj ht
      cases hold : lookupGroup globmap n g.hash with
      | none => exact ⟨g, .inr ⟨rfl, rfl⟩, rfl, by cases g; rfl, by cases g; rfl⟩
      | some t =>
        obtain ⟨g', hP, hkey, hfields, hgroups⟩ := h.origin n _ t hold
        refine ⟨g', .inl hP, hkey, ?_, ?_⟩
        · rw [← hfields]
          cases t
          rfl
        · rw [← hgroups]
          cases t
          rfl
    · obtain ⟨g', hP, hkey, hsame⟩ := h.origin n key t ht
      exact ⟨g', .inl hP, hkey, hsame⟩

theorem Stocked.congr {Q : Nat → MessageSpec → Prop} (h : Stocked globmap P)
    (hsame : ∀ n g, P n g ↔ Q n g) : Stocked globmap Q := by
  constructor
  · exact fun n g hQ => h.found n g ((hsame n g).2 hQ)
  · intro n key t ht
    obtain ⟨g, hP, hrest⟩ := h.origin n key t ht
    exact ⟨g, (hsame n g).1 hP, hrest⟩

theorem stocked_empty : Stocked OrdMap.empty fun _ _ => False :=
  ⟨fun _ _ h => h.elim, fun _ _ _ h => by cases h⟩

/-! ## Parsing -/

theorem Added.refl (ritr : MessageSpec) {st st' : Glob} (hmap : st'.globmap = st.globmap)
    (herrors : st.errors ≤ st'.errors) : Added ritr ritr st st' [] where
  name := rfl
  errors := herrors
  groups x := by simp
  hash n g h := absurd h not_occurs_nil
  stocked P h := by
    rw [hmap]
    exact h.congr fun n g => by simp [not_occurs_nil]

theorem Added.trans (h : Added ritr ritr' st st' added) (h' : Added ritr' ritr'' st' st'' added') :
    Added ritr ritr'' st st'' (added ++ added') where
  name := h'.name.trans h.name
  errors := h.errors.trans h'.errors
  groups x := by rw [h'.groups, h.groups, List.mem_append, or_assoc]
  hash n g hg := by
    rcases occurs_append.1 hg with hg | hg
    · exact h.hash n g hg
    · exact h'.hash n g hg
  stocked P hP := (h'.stocked _ (h.stocked P hP)).congr fun n g => by
    rw [occurs_append, or_assoc]

@[simp] theorem MessageSpec.groups_withFields {fields : Presence} :
    (g.withFields fields).groups = g.groups := by
  cases g
  rfl

@[simp] theorem MessageSpec.name_withFields {fields : Presence} :
    (g.withFields fields).name = g.name := by
  cases g
  rfl

@[simp] theorem MessageSpec.groups_withHash {hv : UInt32} : (g.withHash hv).groups = g.groups := by
  cases g
  rfl

@[simp] theorem MessageSpec.name_withHash {hv : UInt32} : (g.withHash hv).name = g.name := by
  cases g
  rfl

@[simp] theorem MessageSpec.hash_withHash {hv : UInt32} : (g.withHash hv).hash = hv := by
  cases g
  rfl

@[simp] theorem groupHash_withHash {hv : UInt32} : groupHash (g.withHash hv) = groupHash g := by
  cases g
  rfl

theorem Added.withFields {fields : Presence} (h : Added (ritr.withFields fields) ritr' st st' added) :
    Added ritr ritr' st st' added where
  name := by simpa using h.name
  errors := h.errors
  groups x := by simpa using h.groups x
  hash := h.hash
  stocked := h.stocked

theorem Added.fields {fields : Presence} (h : Added ritr ritr' st st' added) :
    Added ritr (ritr'.withFields fields) st st' added where
  name := by simpa using h.name
  errors := h.errors
  groups x := by simpa using h.groups x
  hash := h.hash
  stocked := h.stocked

/-- The groups of a group that has been parsed are those that were added to it. -/
theorem Added.occurs_iff {name : F8String} {admin : Bool}
    (h : Added (MessageSpec.create name admin) g st st' added) :
    Occurs g.groups n g' ↔ Occurs added n g' := by
  have hmem : ∀ x, x ∈ g.groups ↔ x ∈ added := by
    intro x
    rw [h.groups]
    exact or_iff_right List.not_mem_nil
  exact ⟨fun hg => hg.congr fun x hx => (hmem x).1 hx, fun hg => hg.congr fun x hx => (hmem x).2 hx⟩

/-- A group that has been parsed, with its own groups, is added. -/
theorem Added.group {name : F8String} (hnew : lookupKey m ritr.groups = none)
    (h : Added (MessageSpec.create name false) g st st' added) :
    Added ritr (ritr.withGroups (insertKey m (g.withHash (groupHash g)) ritr.groups)) st
      { st' with globmap := CommonGroupMap.add st'.globmap m (groupHash g) (g.withHash (groupHash g)) }
      [(m, g.withHash (groupHash g))] where
  name := by
    cases ritr
    rfl
  errors := h.errors
  groups x := by
    have hgroups : (ritr.withGroups (insertKey m (g.withHash (groupHash g)) ritr.groups)).groups =
        insertKey m (g.withHash (groupHash g)) ritr.groups := by
      cases ritr
      rfl
    rw [hgroups, mem_insertKey_iff hnew, List.mem_singleton]
    exact or_comm
  hash n g₁ hg := by
    rcases occurs_singleton.1 hg with ⟨-, rfl⟩ | hg
    · simp
    · rw [MessageSpec.groups_withHash] at hg
      exact h.hash n g₁ (h.occurs_iff.1 hg)
  stocked P hP := by
    have hinner : Stocked (CommonGroupMap.add st'.globmap m (g.withHash (groupHash g)).hash
        (g.withHash (groupHash g))) _ := (h.stocked P hP).add (by simp)
    rw [MessageSpec.hash_withHash] at hinner
    refine hinner.congr fun n g₁ => ?_
    rw [occurs_singleton, MessageSpec.groups_withHash, h.occurs_iff, or_assoc]
    exact or_congr_right or_comm

mutual

theorem parseGroup_added (s : Schema) : ∀ (el : GroupElement) (ritr : MessageSpec) (st : Glob),
    ∃ added, Added ritr (parseGroup s el ritr st).1 st (parseGroup s el ritr st).2 added
  | .mk attrs fields groups, ritr, st => by
    unfold parseGroup
    split
    · split
      · exact ⟨[], .refl ritr rfl (Nat.le_succ _)⟩
      · rename_i gname _ _ _ _ num _ _
        dsimp only
        split
        · exact ⟨[], .refl ritr rfl (le_refl _)⟩
        · split
          · exact ⟨[], (Added.refl _ rfl (le_refl _)).withFields⟩
          · rename_i hnew
            have hfields : Added (MessageSpec.create gname false) (MessageSpec.create gname false) st
                (processMessageFields s (MessageSpec.create gname false).fields st fields).2 [] :=
              .refl _ processMessageFields_glob.1 processMessageFields_glob.2
            obtain ⟨added, hadded⟩ := parseGroupList_added s groups
              ((MessageSpec.create gname false).withFields
                (processMessageFields s (MessageSpec.create gname false).fields st fields).1)
              (processMessageFields s (MessageSpec.create gname false).fields st fields).2
            have hinner := hfields.trans hadded.withFields
            exact ⟨_, (Added.group (by simpa using hnew) hinner).withFields⟩
    · exact ⟨[], .refl ritr rfl (Nat.le_succ _)⟩

theorem parseGroupList_added (s : Schema) : ∀ (els : List GroupElement) (ritr : MessageSpec)
    (st : Glob), ∃ added,
    Added ritr (parseGroupList s els ritr st).1 st (parseGroupList s els ritr st).2 added
  | [], ritr, st => ⟨[], .refl ritr rfl (le_refl _)⟩
  | el :: els, ritr, st => by
    unfold parseGroupList
    obtain ⟨added, h⟩ := parseGroup_added s el ritr st
    obtain ⟨added', h'⟩ := parseGroupList_added s els (parseGroup s el ritr st).1
      (parseGroup s el ritr st).2
    exact ⟨added ++ added', h.trans h'⟩

end

theorem parseGroups_added (s : Schema) (els : List GroupElement) (ritr : MessageSpec) (st : Glob) :
    ∃ added, Added ritr (parseGroups s els ritr st).1 st (parseGroups s els ritr st).2 added := by
  obtain ⟨added, h⟩ := parseGroupList_added s els ritr st
  refine ⟨added, ?_, h.errors, fun x => ?_, h.hash, h.stocked⟩
  · show ((parseGroupList s els ritr st).1.withHash _).name = _
    rw [MessageSpec.name_withHash, h.name]
  · show x ∈ ((parseGroupList s els ritr st).1.withHash _).groups ↔ _
    rw [MessageSpec.groups_withHash, h.groups]

end

/-! ## Messages -/

/-- A group of one of the messages, at some depth. -/
def InMessage (mspec : OrdMap CString MessageSpec) (n : Nat) (g : MessageSpec) : Prop :=
  ∃ k ms, mspec.get? k = some ms ∧ Occurs ms.groups n g

/-- What is known of the messages that have been loaded from these elements. -/
structure LoadedFrom (realm : List F8String) (els : List MessageElement) (st : Loaded) : Prop where
  origin : ∀ k ms, st.mspec.get? k = some ms →
    ∃ el ∈ els, ∃ msgcat, el.identify realm = some (k, ms.name, msgcat)
  kept : st.glob.errors = 0 → ∀ el ∈ els, ∃ k ms msgcat,
    el.identify realm = some (k, ms.name, msgcat) ∧ st.mspec.get? k = some ms
  hash : ∀ n g, InMessage st.mspec n g → g.hash = groupHash g
  stocked : Stocked st.glob.globmap (InMessage st.mspec)

section
variable {s : Schema} {realm : List F8String} {els : List MessageElement} {el : MessageElement}
  {st : Loaded}

theorem LoadedFrom.error (h : LoadedFrom realm els st) :
    LoadedFrom realm (els ++ [el]) { st with glob := st.glob.error } where
  origin k ms hget := by
    obtain ⟨el', hmem, hidentify⟩ := h.origin k ms hget
    exact ⟨el', List.mem_append_left _ hmem, hidentify⟩
  kept hzero := absurd hzero (Nat.succ_ne_zero _)
  hash := h.hash
  stocked := h.stocked

/-- A message that is added under a key of its own. -/
theorem LoadedFrom.message {msgtype : CString} {msgcat : F8String} {ms : MessageSpec} {glob : Glob}
    {name : F8String} {added : List (Nat × MessageSpec)} {admin : Bool}
    (h : LoadedFrom realm els st) (hidentify : el.identify realm = some (msgtype, name, msgcat))
    (hnew : st.mspec.get? msgtype = none)
    (hadded : Added (MessageSpec.create name admin) ms st.glob glob added) :
    LoadedFrom realm (els ++ [el]) ⟨st.mspec.insert msgtype ms, glob⟩ := by
  obtain rfl : ms.name = name := hadded.name
  have hget : ∀ k, (st.mspec.insert msgtype ms).get? k =
      if k = msgtype then some ms else st.mspec.get? k := by
    intro k
    rw [OrdMap.get?_insert, hnew]
    rfl
  have hin : ∀ n g, InMessage (st.mspec.insert msgtype ms) n g ↔
      InMessage st.mspec n g ∨ Occurs added n g := by
    intro n g
    constructor
    · rintro ⟨k, ms', hms', hg⟩
      rw [hget] at hms'
      split at hms'
      · obtain rfl := Option.some.inj hms'
        exact .inr (hadded.occurs_iff.1 hg)
      · exact .inl ⟨k, ms', hms', hg⟩
    · rintro (⟨k, ms', hms', hg⟩ | hg)
      · refine ⟨k, ms', ?_, hg⟩
        rw [hget, if_neg, hms']
        rintro rfl
        rw [hnew] at hms'
        cases hms'
      · refine ⟨msgtype, ms, ?_, hadded.occurs_iff.2 hg⟩
        rw [hget, if_pos rfl]
  constructor
  · intro k ms' hms'
    dsimp only at hms'
    rw [hget] at hms'
    split at hms'
    · rename_i hk
      obtain rfl := Option.some.inj hms'
      subst hk
      exact ⟨el, List.mem_append_right _ (List.mem_singleton_self _), msgcat, hidentify⟩
    · obtain ⟨el', hmem, hidentify'⟩ := h.origin k ms' hms'
      exact ⟨el', List.mem_append_left _ hmem, hidentify'⟩
  · intro hzero el' hel'
    rcases List.mem_append.1 hel' with hel' | hel'
    · have hbefore : st.glob.errors = 0 := Nat.le_zero.1 (hzero ▸ hadded.errors)
      obtain ⟨k, ms', msgcat', hidentify', hms'⟩ := h.kept hbefore el' hel'
      refine ⟨k, ms', msgcat', hidentify', ?_⟩
      dsimp only
      rw [hget, if_neg, hms']
      rintro rfl
      rw [hnew] at hms'
      cases hms'
    · obtain rfl := List.mem_singleton.1 hel'
      refine ⟨msgtype, ms, msgcat, hidentify, ?_⟩
      dsimp only
      rw [hget, if_pos rfl]
  · intro n g hg
    rcases (hin n g).1 hg with hg | hg
    · exact h.hash n g hg
    · exact hadded.hash n g hg
  · exact (hadded.stocked _ h.stocked).congr fun n g => (hin n g).symm

theorem LoadedFrom.loadMessage (h : LoadedFrom realm els st) :
    LoadedFrom realm (els ++ [el]) (loadMessage s realm st el) := by
  unfold Compiler.loadMessage
  split
  · exact h.error
  · rename_i msgtype name msgcat hidentify
    split
    · exact h.error
    · rename_i hnew
      dsimp only
      generalize hspec : MessageSpec.create name (sameIgnoringCase msgcat (ascii "admin")) = spec
      generalize hr : (if el.groups.isEmpty then (spec, st.glob)
        else parseGroups s el.groups spec st.glob) = r
      have hparsed : ∃ added, Added spec r.1 st.glob r.2 added := by
        rw [← hr]
        split
        · exact ⟨[], .refl _ rfl (le_refl _)⟩
        · exact parseGroups_added s el.groups _ st.glob
      obtain ⟨added, hadded⟩ := hparsed
      have hfields : Added r.1 r.1 r.2 (processMessageFields s r.1.fields r.2 el.fields).2 [] :=
        .refl _ processMessageFields_glob.1 processMessageFields_glob.2
      subst hspec
      exact h.message hidentify (by simpa using hnew) (hadded.trans hfields).fields

theorem LoadedFrom.run (h : LoadedFrom realm els st) (els' : List MessageElement) :
    LoadedFrom realm (els ++ els') (els'.foldl (Compiler.loadMessage s realm) st) := by
  induction els' generalizing els st with
  | nil => rwa [List.append_nil]
  | cons el els' ih =>
    have hhead : LoadedFrom realm (els ++ [el]) (Compiler.loadMessage s realm st el) := h.loadMessage
    have hstep := ih hhead
    rwa [List.append_assoc] at hstep

theorem loadedFrom_empty : LoadedFrom realm [] ⟨OrdMap.empty, Glob.empty⟩ where
  origin k ms h := by cases h
  kept _ el h := absurd h List.not_mem_nil
  hash := by
    rintro n g ⟨k, ms, h, -⟩
    cases h
  stocked := stocked_empty.congr fun n g => by
    refine iff_of_false id ?_
    rintro ⟨k, ms, h, -⟩
    cases h

/-- The messages that have been loaded without an error are those of a schema with a header and a
trailer. -/
theorem loadedFrom_messages (s : Schema) : ∃ realm, LoadedFrom realm s.mlist (loadMessages s) ∧
    ((loadMessages s).glob.errors = 0 →
      s.hasElement .header = true ∧ s.hasElement .trailer = true) := by
  have herror : ∀ realm, LoadedFrom realm s.mlist ⟨OrdMap.empty, Glob.empty.error⟩ := by
    intro realm
    obtain ⟨-, -, hhash, hstocked⟩ : LoadedFrom realm [] _ := loadedFrom_empty
    have horigin : ∀ k ms, (OrdMap.empty : OrdMap CString MessageSpec).get? k = some ms →
        ∃ el ∈ s.mlist, ∃ msgcat, el.identify realm = some (k, ms.name, msgcat) :=
      fun k ms h => by cases h
    exact ⟨horigin, fun h => absurd h (Nat.succ_ne_zero _), hhash, hstocked⟩
  unfold loadMessages
  split
  · exact ⟨[], herror [], fun h => absurd h (Nat.succ_ne_zero _)⟩
  · rename_i helements
    split
    · exact ⟨[], herror [], fun h => absurd h (Nat.succ_ne_zero _)⟩
    · rename_i realm _
      simp only [Bool.or_eq_true, Bool.not_eq_true', not_or, Bool.not_eq_false] at helements
      exact ⟨realm, loadedFrom_empty.run s.mlist, fun _ => ⟨helements.1.2, helements.2⟩⟩

end

end Fix8.Compiler
