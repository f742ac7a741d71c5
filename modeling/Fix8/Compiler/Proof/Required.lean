import Fix8.Compiler.Precomp
import Fix8.Lib.Acyclic

/-!
# Requiredness through components

A schema without cyclic references is written out, and each field that a message reaches through
references to components stands in it on a line of its own.

* `processElements_total`: the expansion comes to an end;
* `processElements_fields`: the lines that it writes are those of the fields reached, each with the
  flag that the references on the way have left;
* `carried_three`: at the depth of a message's elements that is the flag of the last reference
  alone;
* `required_iff`: so a field is written as required where it and all references on the way are, for
  all fields exactly when no optional reference stands above a required one to a required field.
-/

namespace Fix8.Compiler

open Lib

/-! ## References -/

/-- A reference to a component stands in an element, maybe within groups. -/
inductive Holds : XmlElement → XmlElement → Prop
  | child {e r : XmlElement} : r ∈ e.children → r.tag = "component" → Holds e r
  | group {e g r : XmlElement} : g ∈ e.children → g.tag = "group" → Holds g r → Holds e r

/-- The component `a` has a reference to `b`. -/
def Refers (components : Components) (a b : String) : Prop :=
  ∃ c r, components.get? a = some c ∧ Holds c r ∧ r.name = b

/-- A reference is required. -/
def RequiredRef (r : XmlElement) : Prop := r.findAttr "required" false = true

instance (r : XmlElement) : Decidable (RequiredRef r) := inferInstanceAs (Decidable (_ = true))

/-- A field is required. -/
def RequiredField (f : XmlElement) : Prop := f.getAttr "required" = some "Y"

/-- The field `f` is reached from the elements `es` through the references `refs`, the outermost
first, with no group in between. -/
inductive Reaches (components : Components) : List XmlElement → List XmlElement → XmlElement → Prop
  | field {es : List XmlElement} {f : XmlElement} : f ∈ es → f.tag = "field" →
      Reaches components es [] f
  | component {es refs : List XmlElement} {r c f : XmlElement} : r ∈ es → r.tag = "component" →
      components.get? r.name = some c → Reaches components c.children refs f →
      Reaches components es (r :: refs) f

/-- The fields reached from a list of elements, in the order of the file, with the references on the
way to each. -/
inductive Expands (components : Components) :
    List XmlElement → List (List XmlElement × XmlElement) → Prop
  | nil : Expands components [] []
  | field {f : XmlElement} {es : List XmlElement} {os : List (List XmlElement × XmlElement)} :
      f.tag = "field" → Expands components es os → Expands components (f :: es) (([], f) :: os)
  | component {r c : XmlElement} {es : List XmlElement}
      {os os' : List (List XmlElement × XmlElement)} : r.tag = "component" →
      components.get? r.name = some c → Expands components c.children os →
      Expands components es os' →
      Expands components (r :: es) (os.map (fun o => (r :: o.1, o.2)) ++ os')
  | unknown {r : XmlElement} {es : List XmlElement} {os : List (List XmlElement × XmlElement)} :
      r.tag = "component" → components.get? r.name = none → Expands components es os →
      Expands components (r :: es) os
  | other {e : XmlElement} {es : List XmlElement} {os : List (List XmlElement × XmlElement)} :
      e.tag ≠ "field" → e.tag ≠ "component" → Expands components es os →
      Expands components (e :: es) os

namespace Expands

variable {components : Components} {es es' : List XmlElement}
  {os os' : List (List XmlElement × XmlElement)}

theorem append (h : Expands components es os) (h' : Expands components es' os') :
    Expands components (es ++ es') (os ++ os') := by
  induction h with
  | nil => exact h'
  | field ht _ ih => exact .field ht ih
  | component ht hc hcs _ _ ih =>
    rw [List.append_assoc]
    exact .component ht hc hcs ih
  | unknown ht hc _ ih => exact .unknown ht hc ih
  | other hf hc _ ih => exact .other hf hc ih

/-- A list of elements has one expansion. -/
theorem unique (h : Expands components es os) (h' : Expands components es os') : os = os' := by
  induction h generalizing os' with
  | nil => cases h'; rfl
  | field ht _ ih =>
    cases h' with
    | field _ h' => rw [ih h']
    | component ht' => simp [ht] at ht'
    | unknown ht' => simp [ht] at ht'
    | other hf => exact absurd ht hf
  | component ht hc _ _ ihc ih =>
    cases h' with
    | field ht' => simp [ht] at ht'
    | component _ hc' hcs h' =>
      obtain rfl := Option.some.inj (hc.symm.trans hc')
      rw [ihc hcs, ih h']
    | unknown _ hc' => simp [hc] at hc'
    | other _ hn => exact absurd ht hn
  | unknown ht hc _ ih =>
    cases h' with
    | field ht' => simp [ht] at ht'
    | component _ hc' => simp [hc] at hc'
    | unknown _ _ h' => exact ih h'
    | other _ hn => exact absurd ht hn
  | other hf hn _ ih =>
    cases h' with
    | field ht => exact absurd ht hf
    | component ht => exact absurd ht hn
    | unknown ht => exact absurd ht hn
    | other _ _ h' => exact ih h'

/-- An expansion has what is reached. -/
theorem of_reaches {refs : List XmlElement} {f : XmlElement}
    (h : Expands components es os) (hr : Reaches components es refs f) : (refs, f) ∈ os := by
  induction h generalizing refs with
  | nil => cases hr with
    | field hm => simp at hm
    | component hm => simp at hm
  | field ht _ ih => cases hr with
    | field hm hf =>
      rcases List.mem_cons.1 hm with rfl | hm
      · simp
      · exact List.mem_cons_of_mem _ (ih (.field hm hf))
    | component hm hr hc hrs =>
      rcases List.mem_cons.1 hm with rfl | hm
      · simp [ht] at hr
      · exact List.mem_cons_of_mem _ (ih (.component hm hr hc hrs))
  | component ht hc _ _ ihc ih => cases hr with
    | field hm hf =>
      rcases List.mem_cons.1 hm with rfl | hm
      · simp [ht] at hf
      · exact List.mem_append_right _ (ih (.field hm hf))
    | component hm hr hc' hrs =>
      rcases List.mem_cons.1 hm with rfl | hm
      · obtain rfl := Option.some.inj (hc.symm.trans hc')
        exact List.mem_append_left _ (List.mem_map.2 ⟨_, ihc hrs, rfl⟩)
      · exact List.mem_append_right _ (ih (.component hm hr hc' hrs))
  | unknown ht hc _ ih => cases hr with
    | field hm hf =>
      rcases List.mem_cons.1 hm with rfl | hm
      · simp [ht] at hf
      · exact ih (.field hm hf)
    | component hm hr hc' hrs =>
      rcases List.mem_cons.1 hm with rfl | hm
      · simp [hc] at hc'
      · exact ih (.component hm hr hc' hrs)
  | other hf hn _ ih => cases hr with
    | field hm hf' =>
      rcases List.mem_cons.1 hm with rfl | hm
      · exact absurd hf' hf
      · exact ih (.field hm hf')
    | component hm hr hc hrs =>
      rcases List.mem_cons.1 hm with rfl | hm
      · exact absurd hr hn
      · exact ih (.component hm hr hc hrs)

end Expands

theorem Reaches.mono {components : Components} {es es' refs : List XmlElement} {f : XmlElement}
    (h : Reaches components es refs f) (hsub : es ⊆ es') : Reaches components es' refs f := by
  cases h with
  | field hm hf => exact .field (hsub hm) hf
  | component hm hr hc hrs => exact .component (hsub hm) hr hc hrs

/-- What an expansion has is reached. -/
theorem Expands.reaches {components : Components} {es : List XmlElement}
    {os : List (List XmlElement × XmlElement)} (h : Expands components es os) :
    ∀ o ∈ os, Reaches components es o.1 o.2 := by
  induction h with
  | nil => simp
  | @field f es os ht _ ih =>
    intro o ho
    rcases List.mem_cons.1 ho with rfl | ho
    · exact .field List.mem_cons_self ht
    · exact (ih o ho).mono (List.subset_cons_self f es)
  | @component r c es os os' ht hc _ _ ihc ih =>
    intro o ho
    rcases List.mem_append.1 ho with ho | ho
    · obtain ⟨o', ho', rfl⟩ := List.mem_map.1 ho
      exact .component List.mem_cons_self ht hc (ihc o' ho')
    · exact (ih o ho).mono (List.subset_cons_self r es)
  | @unknown r es os _ _ _ ih => exact fun o ho => (ih o ho).mono (List.subset_cons_self r es)
  | @other e es os _ _ _ ih => exact fun o ho => (ih o ho).mono (List.subset_cons_self e es)

/-! ## Lines -/

/-- The indentation of a line. -/
def Line.depth : Line → Nat
  | .declaration => 0
  | .opens depth _ _ => depth
  | .empty depth _ _ => depth
  | .closes depth _ => depth

/-- The attributes of the fields that are written at a depth. -/
def fieldsAt (depth : Nat) (lines : List Line) : List (List (String × String)) :=
  lines.filterMap fun
    | .empty d tag attrs => if d = depth ∧ tag = "field" then some attrs else none
    | _ => none

@[simp] theorem fieldsAt_append {depth : Nat} {l l' : List Line} :
    fieldsAt depth (l ++ l') = fieldsAt depth l ++ fieldsAt depth l' := List.filterMap_append

@[simp] theorem fieldsAt_opens {depth d : Nat} {tag : String} {attrs : List (String × String)}
    {l : List Line} : fieldsAt depth (.opens d tag attrs :: l) = fieldsAt depth l := rfl

@[simp] theorem fieldsAt_closes {depth d : Nat} {tag : String} {l : List Line} :
    fieldsAt depth (.closes d tag :: l) = fieldsAt depth l := rfl

/-- Lines further in have no field at this depth. -/
theorem fieldsAt_deep {depth : Nat} {l : List Line} (h : ∀ x ∈ l, depth < x.depth) :
    fieldsAt depth l = [] := by
  refine List.filterMap_eq_nil_iff.2 fun x hx => ?_
  cases x with
  | empty d tag attrs =>
    have hd : depth < d := h _ hx
    exact if_neg fun he => absurd he.1 (Nat.ne_of_gt hd)
  | _ => rfl

/-! ## Elements in a row -/

section ProcessAll
variable {process : XmlElement → Option Output} {e : XmlElement} {es : List XmlElement}
  {out : Output}

theorem processAll_cons : processAll process (e :: es) = some out ↔
    ∃ o o', process e = some o ∧ processAll process es = some o' ∧ out = o.append o' := by
  unfold processAll
  rw [List.mapM_cons]
  cases process e with
  | none => simp
  | some o =>
    cases es.mapM process with
    | none => simp
    | some os => simp [Output.concat, eq_comm]

/-- The lines of elements in a row are those of the elements. -/
theorem processAll_lines {P : Line → Prop}
    (h : ∀ e ∈ es, ∀ o, process e = some o → ∀ x ∈ o.lines, P x)
    (hout : processAll process es = some out) : ∀ x ∈ out.lines, P x := by
  induction es generalizing out with
  | nil =>
    cases hout
    simp [Output.concat]
  | cons e es ih =>
    obtain ⟨o, o', ho, ho', rfl⟩ := processAll_cons.1 hout
    intro x hx
    rcases List.mem_append.1 hx with hx | hx
    · exact h e List.mem_cons_self o ho x hx
    · exact ih (fun e he => h e (List.mem_cons_of_mem _ he)) ho' x hx

/-- Where something comes out for each of the elements with fuel enough, so it does for all. -/
theorem mapM_total {process : Nat → XmlElement → Option Output} {P : XmlElement → Output → Prop}
    (h : ∀ e ∈ es, ∃ n out, P e out ∧ ∀ fuel ≥ n, process fuel e = some out) :
    ∃ n outs, List.Forall₂ P es outs ∧ ∀ fuel ≥ n, es.mapM (process fuel) = some outs := by
  induction es with
  | nil => exact ⟨0, [], .nil, fun _ _ => rfl⟩
  | cons e es ih =>
    obtain ⟨n, o, hP, hn⟩ := h e List.mem_cons_self
    obtain ⟨n', os, hPs, hn'⟩ := ih fun e he => h e (List.mem_cons_of_mem _ he)
    refine ⟨max n n', o :: os, .cons hP hPs, fun fuel hf => ?_⟩
    rw [List.mapM_cons, hn fuel (le_trans (le_max_left n n') hf),
      hn' fuel (le_trans (le_max_right n n') hf)]
    rfl

theorem processAll_total {process : Nat → XmlElement → Option Output}
    (h : ∀ e ∈ es, ∃ n out, ∀ fuel ≥ n, process fuel e = some out) :
    ∃ n out, ∀ fuel ≥ n, processAll (process fuel) es = some out := by
  obtain ⟨n, outs, -, hn⟩ := mapM_total (P := fun _ _ => True) fun e he => by simpa using h e he
  exact ⟨n, Output.concat outs, fun fuel hf => by rw [processAll, hn fuel hf]; rfl⟩

end ProcessAll

/-! ## What is written -/

/-- The flag that the references on the way leave for a field. -/
def carried (depth : Nat) (required : Bool) (refs : List XmlElement) : Bool :=
  refs.foldl (fun required r =>
    if depth = 3 then r.findAttr "required" false else r.findAttr "required" false && required)
    required

/-- The attributes that a field reached is written with. -/
def written (depth : Nat) (compon : String) (required : Bool)
    (o : List XmlElement × XmlElement) : List (String × String) :=
  outputAttributes o.2 (carried depth required o.1) ++
    componentAttribute ((o.1.getLast?.map XmlElement.name).getD compon)

/-- One more reference in front. -/
theorem written_cons {depth : Nat} {compon : String} {required : Bool} {r : XmlElement}
    {o : List XmlElement × XmlElement} :
    written depth compon required (r :: o.1, o.2) = written depth r.name
      (if depth = 3 then r.findAttr "required" false
        else r.findAttr "required" false && required) o := by
  obtain ⟨refs, f⟩ := o
  unfold written carried
  rw [List.foldl_cons, List.getLast?_cons]
  cases refs.getLast? <;> rfl

section Elements
variable {components : Components}

/-- An element is written no further out than it is asked for. -/
theorem processElements_depth {fuel : Nat} {e : XmlElement} {depth : Nat} {compon : String}
    {required : Bool} {out : Output}
    (h : processElements components fuel e depth compon required = some out) :
    ∀ x ∈ out.lines, depth ≤ x.depth := by
  induction fuel generalizing e depth compon required out with
  | zero => cases h
  | succ fuel ih =>
    unfold processElements at h
    split at h
    · cases h
      simp [outputField, Line.depth]
    · split at h
      · unfold processComponent at h
        split at h
        · cases h
          simp
        · exact processAll_lines (fun e _ o ho => ih ho) h
      · split at h
        · obtain ⟨o, ho, rfl⟩ := Option.map_eq_some_iff.1 h
          have hdeep := processAll_lines (P := fun x => depth + 1 ≤ x.depth)
            (fun e _ o ho => ih ho) ho
          intro x hx
          simp only [List.mem_append, List.mem_cons, List.mem_nil_iff, or_false] at hx
          rcases hx with (rfl | hx) | rfl
          · exact le_refl _
          · exact Nat.le_of_succ_le (hdeep x hx)
          · exact le_refl _
        · cases h
          simp

/-- Where each element in a row is written as it expands, so is the row. -/
theorem processAll_fields {process : XmlElement → Option Output} {es : List XmlElement}
    {depth : Nat} {write : List XmlElement × XmlElement → List (String × String)} {out : Output}
    (h : ∀ e o, process e = some o →
      ∃ os, Expands components [e] os ∧ fieldsAt depth o.lines = os.map write)
    (hout : processAll process es = some out) :
    ∃ os, Expands components es os ∧ fieldsAt depth out.lines = os.map write := by
  induction es generalizing out with
  | nil =>
    cases hout
    exact ⟨[], .nil, rfl⟩
  | cons e es ih =>
    obtain ⟨o, o', ho, ho', rfl⟩ := processAll_cons.1 hout
    obtain ⟨os, hos, hf⟩ := h e o ho
    obtain ⟨os', hos', hf'⟩ := ih ho'
    refine ⟨os ++ os', hos.append hos', ?_⟩
    rw [Output.append, fieldsAt_append, hf, hf', List.map_append]

/-- The fields that an element writes at its depth are those that are reached from it. -/
theorem processElements_fields {fuel : Nat} {e : XmlElement} {depth : Nat} {compon : String}
    {required : Bool} {out : Output}
    (h : processElements components fuel e depth compon required = some out) :
    ∃ os, Expands components [e] os ∧
      fieldsAt depth out.lines = os.map (written depth compon required) := by
  induction fuel generalizing e depth compon required out with
  | zero => cases h
  | succ fuel ih =>
    unfold processElements at h
    split at h
    · rename_i ht
      cases h
      refine ⟨[([], e)], .field ht .nil, ?_⟩
      simp [fieldsAt, outputField, written, carried]
    · rename_i hf
      split at h
      · rename_i ht
        unfold processComponent at h
        split at h
        · rename_i hc
          cases h
          exact ⟨[], .unknown ht hc .nil, rfl⟩
        · rename_i c hc
          obtain ⟨os, hos, hw⟩ := processAll_fields (fun e o ho => ih ho) h
          refine ⟨os.map (fun o => (e :: o.1, o.2)) ++ [], .component ht hc hos .nil, ?_⟩
          rw [hw, List.append_nil, List.map_map]
          exact List.map_congr_left fun o _ => written_cons.symm
      · rename_i hn
        split at h
        · obtain ⟨o, ho, rfl⟩ := Option.map_eq_some_iff.1 h
          have hdeep := processAll_lines (P := fun x => depth < x.depth)
            (fun e _ o ho => processElements_depth ho) ho
          refine ⟨[], .other hf hn .nil, ?_⟩
          rw [List.cons_append, fieldsAt_opens, fieldsAt_append, fieldsAt_deep hdeep]
          rfl
        · cases h
          exact ⟨[], .other hf hn .nil, rfl⟩

/-! ## Termination -/

/-- What comes out with one more unit of fuel comes out with fuel enough. -/
theorem exists_of_succ {f : Nat → Option Output}
    (h : ∃ n out, ∀ fuel ≥ n, f (fuel + 1) = some out) : ∃ n out, ∀ fuel ≥ n, f fuel = some out := by
  obtain ⟨n, out, hn⟩ := h
  refine ⟨n + 1, out, fun fuel hf => ?_⟩
  obtain ⟨fuel, rfl⟩ : ∃ m, fuel = m + 1 := ⟨fuel - 1, by omega⟩
  exact hn fuel (by omega)

/-- An element is written with fuel enough where the components that it refers to are. -/
theorem processElements_total_of {e : XmlElement}
    (hrefs : ∀ r, (r = e ∧ e.tag = "component") ∨ (e.tag = "group" ∧ Holds e r) →
      ∀ c, components.get? r.name = some c → ∀ x ∈ c.children, ∀ depth compon required,
        ∃ n out, ∀ fuel ≥ n, processElements components fuel x depth compon required = some out)
    (depth : Nat) (compon : String) (required : Bool) :
    ∃ n out, ∀ fuel ≥ n, processElements components fuel e depth compon required = some out := by
  apply exists_of_succ
  by_cases hf : e.tag = "field"
  · exact ⟨0, outputField e depth compon required, fun fuel _ => by simp [processElements, hf]⟩
  by_cases hc : e.tag = "component"
  · cases hget : components.get? e.name with
    | none => exact ⟨0, ⟨[], 1⟩, fun fuel _ => by simp [processElements, hc, processComponent, hget]⟩
    | some c =>
      obtain ⟨n, out, hn⟩ := processAll_total fun x hx =>
        hrefs e (.inl ⟨rfl, hc⟩) c hget x hx depth e.name
          (if depth = 3 then e.findAttr "required" false
            else e.findAttr "required" false && required)
      refine ⟨n, out, fun fuel h => ?_⟩
      simpa [processElements, hc, processComponent, hget] using hn fuel h
  by_cases hg : e.tag = "group"
  · have hchild : ∀ x ∈ e.children, ∃ n out, ∀ fuel ≥ n,
        processElements components fuel x (depth + 1) "" required = some out := by
      intro x hx
      have hlt : sizeOf x < sizeOf e := by
        cases e
        exact lt_trans (List.sizeOf_lt_of_mem hx) (by simp)
      refine processElements_total_of (fun r hr => ?_) (depth + 1) "" required
      rcases hr with ⟨rfl, ht⟩ | ⟨ht, hr⟩
      · exact hrefs _ (.inr ⟨hg, .child hx ht⟩)
      · exact hrefs r (.inr ⟨hg, .group hx ht hr⟩)
    obtain ⟨n, out, hn⟩ := processAll_total hchild
    refine ⟨n, ⟨.opens depth "group" (outputAttributes e required ++ componentAttribute compon) ::
      out.lines ++ [.closes depth "group"], out.errors⟩, fun fuel h => ?_⟩
    simp [processElements, hg, processGroup, hn fuel h]
  · exact ⟨0, ⟨[], 0⟩, fun fuel _ => by simp [processElements, hf, hc, hg]⟩
termination_by sizeOf e

/-- Only components lead on to others. -/
theorem refers_finite : {a | ∃ b, Refers components a b}.Finite := by
  refine (List.finite_toSet components.keys).subset fun a ha => ?_
  obtain ⟨b, c, r, hc, -⟩ := ha
  exact OrdMap.mem_keys.2 (by rw [hc]; rfl)

/-- Without cyclic references each element is written with fuel enough. -/
theorem processElements_total (hac : Acyclic (Refers components)) (e : XmlElement) (depth : Nat)
    (compon : String) (required : Bool) :
    ∃ n out, ∀ fuel ≥ n, processElements components fuel e depth compon required = some out := by
  have hcomponents : ∀ a c, components.get? a = some c → ∀ x ∈ c.children,
      ∀ depth compon required, ∃ n out, ∀ fuel ≥ n,
        processElements components fuel x depth compon required = some out := by
    intro a
    induction a using (hac.wellFounded refers_finite).induction with
    | _ a ih =>
      intro c hc x hx
      refine processElements_total_of fun r hr => ?_
      refine ih r.name ⟨c, r, hc, ?_, rfl⟩
      rcases hr with ⟨rfl, ht⟩ | ⟨ht, hr⟩
      · exact .child hx ht
      · exact .group hx ht hr
  exact processElements_total_of (fun r _ => hcomponents r.name) depth compon required

/-- The fields that a message writes at the depth of its elements are those that it reaches. -/
theorem processMessages_fields {fuel : Nat} {m : XmlElement} {tag : String} {depth : Nat}
    {out : Output} (h : processMessages components fuel m tag depth = some out) :
    ∃ os, Expands components m.children os ∧
      fieldsAt (depth + 2) out.lines = os.map (written (depth + 2) "" true) := by
  obtain ⟨o, ho, rfl⟩ := Option.map_eq_some_iff.1 h
  obtain ⟨os, hos, hw⟩ := processAll_fields (fun e o ho => processElements_fields ho) ho
  refine ⟨os, hos, ?_⟩
  rw [List.cons_append, fieldsAt_opens, fieldsAt_append, hw]
  simp [fieldsAt]

/-- A message is written with fuel enough. -/
theorem processMessages_total (hac : Acyclic (Refers components)) (m : XmlElement) (tag : String)
    (depth : Nat) :
    ∃ n out, ∀ fuel ≥ n, processMessages components fuel m tag depth = some out := by
  obtain ⟨n, out, hn⟩ := processAll_total fun e (_ : e ∈ m.children) =>
    processElements_total hac e (depth + 2) "" true
  refine ⟨n, ⟨.opens (depth + 1) tag (outputAttributes m true) :: out.lines ++
    [.closes (depth + 1) tag], out.errors⟩, fun fuel h => ?_⟩
  simp [processMessages, hn fuel h]

end Elements

/-! ## Flags -/

/-- At the depth of a message's elements the flag is that of the last reference. -/
theorem carried_three {refs : List XmlElement} :
    carried 3 true refs = true ↔ ∀ r ∈ refs.getLast?, RequiredRef r := by
  have hlast : ∀ required, carried 3 required refs =
      (refs.getLast?.map fun r => r.findAttr "required" false).getD required := by
    unfold carried
    induction refs with
    | nil => exact fun _ => rfl
    | cons r refs ih =>
      intro required
      rw [List.foldl_cons, ih, List.getLast?_cons]
      cases refs.getLast? <;> rfl
  rw [hlast]
  cases refs.getLast? <;> simp [RequiredRef]

/-- Elsewhere it is that of all references. -/
theorem carried_of_ne {depth : Nat} (hd : depth ≠ 3) {required : Bool} {refs : List XmlElement} :
    carried depth required refs = true ↔ (∀ r ∈ refs, RequiredRef r) ∧ required = true := by
  unfold carried
  induction refs generalizing required with
  | nil => simp
  | cons r refs ih =>
    rw [List.foldl_cons, ih, if_neg hd, Bool.and_eq_true, List.forall_mem_cons, RequiredRef]
    tauto

section Written
variable {depth : Nat} {compon : String} {required : Bool} {o : List XmlElement × XmlElement}

/-- What is written under a name that the compiler does not write itself. -/
theorem mem_written {a v : String} (hline : a ≠ "line") (hcompon : a ≠ "component") :
    (a, v) ∈ written depth compon required o ↔ ∃ w, o.2.getAttr a = some w ∧
      v = if a = "required" ∧ w = "Y" ∧ carried depth required o.1 = false then "N" else w := by
  have hno : (a, v) ∉ componentAttribute ((o.1.getLast?.map XmlElement.name).getD compon) := by
    unfold componentAttribute
    split <;> simp [hcompon]
  have hno' : (a, v) ∉ (if o.2.line ≠ 0 then [("line", toString o.2.line)] else []) := by
    split <;> simp [hline]
  rw [written, outputAttributes, List.mem_append, List.mem_append, List.mem_map]
  simp only [hno, hno', or_false, Prod.mk.injEq, XmlElement.getAttr, OrdMap.get?_eq_some]
  constructor
  · rintro ⟨⟨a', w⟩, hm, rfl, rfl⟩
    exact ⟨w, hm, rfl⟩
  · rintro ⟨w, hm, rfl⟩
    exact ⟨(a, w), hm, rfl, rfl⟩

/-- A line names its field. -/
theorem name_mem_written {name : String} :
    ("name", name) ∈ written depth compon required o ↔ o.2.getAttr "name" = some name := by
  rw [mem_written (by decide) (by decide)]
  simp

/-- A line says that its field is required where the field is and the flag has been left. -/
theorem required_mem_written : ("required", "Y") ∈ written depth compon required o ↔
    RequiredField o.2 ∧ carried depth required o.1 = true := by
  rw [mem_written (by decide) (by decide), RequiredField]
  constructor
  · rintro ⟨w, hw, hY⟩
    split at hY
    · simp at hY
    · rename_i hn
      subst hY
      exact ⟨hw, by simpa using hn⟩
  · rintro ⟨hw, hc⟩
    exact ⟨"Y", hw, by simp [hc]⟩

end Written

/-! ## Messages -/

/-- The attributes of a line are those of a field reached: it is written as required where it and
all references on the way are. -/
def Agrees (o : List XmlElement × XmlElement) (attrs : List (String × String)) : Prop :=
  (∀ name, ("name", name) ∈ attrs ↔ o.2.getAttr "name" = some name) ∧
    (("required", "Y") ∈ attrs ↔ RequiredField o.2 ∧ ∀ r ∈ o.1, RequiredRef r)

/-- The fields reached from a message are written, and agree. -/
def RequiredAlong (components : Components) (depth : Nat) (m : XmlElement) (out : Output) : Prop :=
  ∃ os, Expands components m.children os ∧ List.Forall₂ Agrees os (fieldsAt (depth + 2) out.lines)

/-- No optional reference stands above a required one to a required field. -/
def LastDecides (components : Components) (m : XmlElement) : Prop :=
  ∀ refs f, Reaches components m.children refs f → RequiredField f →
    (∀ r ∈ refs.getLast?, RequiredRef r) → ∀ r ∈ refs, RequiredRef r

section Messages
variable {components : Components} {fuel depth : Nat} {m : XmlElement} {tag : String} {out : Output}

/-- A message agrees where the flag left for each required field is that of all references. -/
theorem requiredAlong_iff (h : processMessages components fuel m tag depth = some out) :
    RequiredAlong components depth m out ↔ ∀ refs f, Reaches components m.children refs f →
      RequiredField f → (carried (depth + 2) true refs = true ↔ ∀ r ∈ refs, RequiredRef r) := by
  obtain ⟨os, hos, hw⟩ := processMessages_fields h
  have hsame : RequiredAlong components depth m out ↔
      ∀ o ∈ os, Agrees o (written (depth + 2) "" true o) := by
    unfold RequiredAlong
    rw [hw]
    constructor
    · rintro ⟨os', hos', h'⟩
      rw [hos'.unique hos, List.forall₂_map_right_iff, List.forall₂_same] at h'
      exact h'
    · intro h'
      exact ⟨os, hos, by rw [List.forall₂_map_right_iff, List.forall₂_same]; exact h'⟩
  have hone : ∀ o, Agrees o (written (depth + 2) "" true o) ↔ (RequiredField o.2 →
      (carried (depth + 2) true o.1 = true ↔ ∀ r ∈ o.1, RequiredRef r)) := by
    intro o
    simp only [Agrees, name_mem_written, required_mem_written, implies_true, true_and]
    tauto
  simp only [hsame, hone]
  constructor
  · intro h' refs f hr
    exact h' (refs, f) (hos.of_reaches hr)
  · intro h' o ho
    exact h' o.1 o.2 (hos.reaches o ho)

/-- A message agrees where no optional reference stands above a required one. -/
theorem message_iff (h : processMessages components fuel m tag 1 = some out) :
    RequiredAlong components 1 m out ↔ LastDecides components m := by
  rw [requiredAlong_iff h]
  refine forall_congr' fun refs => forall_congr' fun f => forall_congr' fun _ =>
    forall_congr' fun _ => ?_
  rw [carried_three]
  constructor
  · exact fun h' => h'.1
  · exact fun h' => ⟨h', fun hall r hr => hall r (List.mem_of_mem_getLast? hr)⟩

/-- A header or trailer agrees. -/
theorem part_agrees (h : processMessages components fuel m tag 0 = some out) :
    RequiredAlong components 0 m out := by
  refine (requiredAlong_iff h).2 fun refs f _ _ => ?_
  rw [carried_of_ne (by decide)]
  simp

end Messages

/-! ## Schemas -/

/-- What holds of each message exactly where its output has a property. -/
theorem forall₂_iff {P : XmlElement → Prop} {Q : XmlElement → Output → Prop}
    {es : List XmlElement} {outs : List Output}
    (h : List.Forall₂ (fun e out => Q e out ↔ P e) es outs) :
    List.Forall₂ Q es outs ↔ ∀ e ∈ es, P e := by
  induction h with
  | nil => simp
  | cons hQ _ ih => rw [List.forall₂_cons, hQ, ih, List.forall_mem_cons]

/-- The header or trailer of a schema is written with fuel enough, and agrees. -/
theorem processPart_total {components : Components} (hac : Acyclic (Refers components))
    (part : Option XmlElement) (tag : String) :
    ∃ n out, (∀ m ∈ part, RequiredAlong components 0 m out) ∧
      ∀ fuel ≥ n, processPart components fuel part tag = some out := by
  cases part with
  | none => exact ⟨0, ⟨[], 0⟩, by simp, fun _ _ => rfl⟩
  | some m =>
    obtain ⟨n, out, hn⟩ := processMessages_total hac m tag 0
    exact ⟨n, out, by simpa using part_agrees (hn n (le_refl n)), hn⟩

/-- A schema without cyclic references is written with fuel enough, message by message. In each the
fields reached through references to components are written as required where they and all of the
references are, exactly when no optional reference stands above a required one to a required
field. -/
theorem required_iff (xf : XmlElement) (hac : Acyclic (Refers (componentsOf xf))) :
    ∃ header trailer messages,
      (∃ n, ∀ fuel ≥ n,
        (messagesOf xf).elements.mapM
          (fun m => processMessages (componentsOf xf) fuel m "message" 1) = some messages ∧
        precomp fuel xf = some (outputSchema xf header trailer (Output.concat messages)
          (xf.findSet ["fix", "fields", "field"] OrdMap.empty) (componentsOf xf))) ∧
      (List.Forall₂ (RequiredAlong (componentsOf xf) 1) (messagesOf xf).elements messages ↔
        ∀ m ∈ (messagesOf xf).elements, LastDecides (componentsOf xf) m) := by
  obtain ⟨n₁, header, -, hheader⟩ := processPart_total hac (xf.find ["fix", "header"]) "header"
  obtain ⟨n₂, trailer, -, htrailer⟩ := processPart_total hac (xf.find ["fix", "trailer"]) "trailer"
  have hall : ∃ n messages,
      List.Forall₂ (fun m out => RequiredAlong (componentsOf xf) 1 m out ↔
        LastDecides (componentsOf xf) m) (messagesOf xf).elements messages ∧
      ∀ fuel ≥ n, (messagesOf xf).elements.mapM
        (fun m => processMessages (componentsOf xf) fuel m "message" 1) = some messages := by
    refine mapM_total fun m _ => ?_
    obtain ⟨n, out, hn⟩ := processMessages_total hac m "message" 1
    exact ⟨n, out, message_iff (hn n (le_refl n)), hn⟩
  obtain ⟨n₃, messages, hmessages, hlist⟩ := hall
  refine ⟨header, trailer, messages, ⟨max n₁ (max n₂ n₃), fun fuel hf => ?_⟩,
    forall₂_iff hmessages⟩
  obtain ⟨hf₁, hf₂, hf₃⟩ : n₁ ≤ fuel ∧ n₂ ≤ fuel ∧ n₃ ≤ fuel := by omega
  have hmsgs : processList (componentsOf xf) fuel (messagesOf xf) =
      some (Output.concat messages) := by
    rw [processList, processAll, hlist fuel hf₃]
    rfl
  refine ⟨hlist fuel hf₃, ?_⟩
  rw [precomp, hheader fuel hf₁, htrailer fuel hf₂, hmsgs]
  rfl

/-- Names and required attributes. -/
def attrsOf (name required : String) : OrdMap String String :=
  (OrdMap.empty.insert "name" name).insert "required" required

def textField : XmlElement := ⟨"field", attrsOf "Text" "Y", 4, 0, []⟩

def innerComponent : XmlElement := ⟨"component", attrsOf "Inner" "N", 3, 0, [textField]⟩

def innerRef : XmlElement := ⟨"component", attrsOf "Inner" "Y", 6, 0, []⟩

def outerComponent : XmlElement := ⟨"component", attrsOf "Outer" "N", 5, 0, [innerRef]⟩

def outerRef : XmlElement := ⟨"component", attrsOf "Outer" "N", 9, 0, []⟩

def newsMessage : XmlElement := ⟨"message", attrsOf "News" "Y", 8, 0, [outerRef]⟩

/-- A message that may have a component, with a component that must be in it, with a field that must
be in that. -/
def newsSchema : XmlElement := ⟨"fix", OrdMap.empty, 1, 0,
  [⟨"components", OrdMap.empty, 2, 0, [innerComponent, outerComponent]⟩,
    ⟨"messages", OrdMap.empty, 7, 0, [newsMessage]⟩]⟩

/-- What is written for the message. -/
def newsOutput : Output :=
  ⟨[.opens 2 "message" [("name", "News"), ("required", "Y")],
    .empty 3 "field" [("name", "Text"), ("required", "Y"), ("component", "Inner")],
    .closes 2 "message"], 0⟩

theorem newsSchema_acyclic : Acyclic (Refers (componentsOf newsSchema)) := by
  refine acyclic_of_rank (fun a => if a = "Outer" then 1 else 0) fun a b hab => ?_
  obtain ⟨c, r, hc, hr, rfl⟩ := hab
  have hm : (a, c) ∈ [("Inner", innerComponent), ("Outer", outerComponent)] :=
    OrdMap.get?_eq_some.1 hc
  simp only [List.mem_cons, Prod.mk.injEq, List.mem_nil_iff, or_false] at hm
  rcases hm with ⟨rfl, rfl⟩ | ⟨rfl, rfl⟩
  · cases hr with
    | child hr ht =>
      obtain rfl := List.mem_singleton.1 hr
      exact absurd ht (by decide)
    | group hg ht =>
      obtain rfl := List.mem_singleton.1 hg
      exact absurd ht (by decide)
  · cases hr with
    | child hr =>
      obtain rfl := List.mem_singleton.1 hr
      decide
    | group hg ht =>
      obtain rfl := List.mem_singleton.1 hg
      exact absurd ht (by decide)

/-- A field that a message need not have is written as required: the component that it must be in
need not be there. -/
theorem optional_required : Acyclic (Refers (componentsOf newsSchema)) ∧
    newsMessage ∈ (messagesOf newsSchema).elements ∧
    processMessages (componentsOf newsSchema) 3 newsMessage "message" 1 = some newsOutput ∧
    ¬ RequiredAlong (componentsOf newsSchema) 1 newsMessage newsOutput := by
  have hrun : processMessages (componentsOf newsSchema) 3 newsMessage "message" 1 =
      some newsOutput := rfl
  refine ⟨newsSchema_acyclic, List.mem_singleton.2 rfl, hrun, fun h => ?_⟩
  have hinner : Reaches (componentsOf newsSchema) outerComponent.children [innerRef] textField :=
    .component List.mem_cons_self rfl rfl (.field List.mem_cons_self rfl)
  have hall := (message_iff hrun).1 h [outerRef, innerRef] textField
    (.component List.mem_cons_self rfl rfl hinner) rfl (by simpa using by decide)
  exact absurd (hall outerRef List.mem_cons_self) (by decide)

theorem required_iff_news : ∃ header trailer messages,
    (∃ n, ∀ fuel ≥ n,
      (messagesOf newsSchema).elements.mapM
        (fun m => processMessages (componentsOf newsSchema) fuel m "message" 1) = some messages ∧
      precomp fuel newsSchema = some (outputSchema newsSchema header trailer
        (Output.concat messages) (newsSchema.findSet ["fix", "fields", "field"] OrdMap.empty)
        (componentsOf newsSchema))) ∧
    (List.Forall₂ (RequiredAlong (componentsOf newsSchema) 1) (messagesOf newsSchema).elements
        messages ↔
      ∀ m ∈ (messagesOf newsSchema).elements, LastDecides (componentsOf newsSchema) m) :=
  required_iff newsSchema newsSchema_acyclic

end Fix8.Compiler
