import Fix8.Compiler.Proof.Required

/-!
# Merged fields

`precompfixt` puts the fields of the transport document and those of the application document into
one set. The set is ordered by the sequence numbers, and each document has numbers of its own.

* `Document.ofNode`: the numbers that the parser gives increase through a document;
* `mem_findAll`: of the application's fields those stay that have no transport field's number;
* `filterUnique_count`: of the fields with a name one stays;
* `merged_iff`: so the fields of both documents are written, each name once, exactly when the name
  of each application field is kept by a field that stays.
-/

namespace Fix8.Compiler

open Lib

/-! ## Documents -/

namespace XmlElement

theorem preorderAll_eq (cs : List XmlElement) :
    preorder.preorderAll cs = cs.flatMap preorder := by
  induction cs with
  | nil => rfl
  | cons c cs ih => rw [preorder.preorderAll, ih, List.flatMap_cons]

theorem preorder_eq (e : XmlElement) : e.preorder = e :: e.children.flatMap preorder := by
  cases e
  rw [preorder, preorderAll_eq]

/-- What `find` comes to stands in the document, in that order. -/
theorem found_sublist (path : List String) (e : XmlElement) :
    (e.found path).Sublist e.preorder := by
  rw [preorder_eq]
  induction path generalizing e with
  | nil => simp [found]
  | cons p path ih =>
    cases path with
    | nil =>
      unfold found
      split <;> simp
    | cons q path =>
      unfold found
      split
      · simp
      · split
        · refine List.Sublist.cons e ?_
          induction e.children with
          | nil => simp
          | cons c cs ihc =>
            rw [List.flatMap_cons, List.filter_cons]
            split
            · rw [List.flatMap_cons]
              exact (preorder_eq c ▸ ih c).append ihc
            · exact ihc.trans (List.sublist_append_right _ _)
        · simp

end XmlElement

/-- The numbers in a document increase in the order in which its elements are found. -/
theorem Document.found_sorted (d : Document) (path : List String) :
    ((d.root.found path).map XmlElement.sequence).Pairwise (· < ·) :=
  d.ordered.sublist ((d.root.found_sublist path).map _)

/-- The numbers that an element and those in it have been given. -/
theorem number_spec (n : Node) (seq : Nat) :
    ((n.number seq).1.preorder.map XmlElement.sequence).Pairwise (· < ·) ∧ seq ≤ (n.number seq).2 ∧
      ∀ e ∈ (n.number seq).1.preorder, seq < e.sequence ∧ e.sequence ≤ (n.number seq).2 := by
  obtain ⟨tag, attrs, line, children⟩ := n
  have hall : ∀ cs ⊆ children, ∀ seq,
      ((XmlElement.preorder.preorderAll (Node.number.numberAll cs seq).1).map
        XmlElement.sequence).Pairwise (· < ·) ∧ seq ≤ (Node.number.numberAll cs seq).2 ∧
      ∀ e ∈ XmlElement.preorder.preorderAll (Node.number.numberAll cs seq).1,
        seq < e.sequence ∧ e.sequence ≤ (Node.number.numberAll cs seq).2 := by
    intro cs hcs
    induction cs with
    | nil => simp [Node.number.numberAll, XmlElement.preorder.preorderAll]
    | cons c cs ih =>
      intro seq
      have hlt : sizeOf c < sizeOf children := List.sizeOf_lt_of_mem (hcs List.mem_cons_self)
      obtain ⟨hp, hle, hb⟩ := number_spec c seq
      obtain ⟨hps, hles, hbs⟩ := ih (fun x hx => hcs (List.mem_cons_of_mem _ hx)) (c.number seq).2
      simp only [Node.number.numberAll, XmlElement.preorder.preorderAll, List.map_append,
        List.pairwise_append, List.mem_append, List.mem_map]
      refine ⟨⟨hp, hps, ?_⟩, hle.trans hles, ?_⟩
      · rintro _ ⟨a, ha, rfl⟩ _ ⟨b, hb', rfl⟩
        exact lt_of_le_of_lt (hb a ha).2 (hbs b hb').1
      · rintro e (he | he)
        · exact ⟨(hb e he).1, (hb e he).2.trans hles⟩
        · exact ⟨lt_of_le_of_lt hle (hbs e he).1, (hbs e he).2⟩
  obtain ⟨hp, hle, hb⟩ := hall children (List.Subset.refl _) (seq + 1)
  simp only [Node.number, XmlElement.preorder, List.map_cons, List.pairwise_cons, List.mem_map,
    List.mem_cons]
  refine ⟨⟨?_, hp⟩, by omega, ?_⟩
  · rintro _ ⟨e, he, rfl⟩
    exact (hb e he).1
  · rintro e (rfl | he)
    · exact ⟨Nat.lt_succ_self seq, hle⟩
    · exact ⟨Nat.lt_of_succ_lt (hb e he).1, (hb e he).2⟩
termination_by sizeOf n

/-- A document as the parser numbers it. -/
def Document.ofNode (n : Node) : Document := ⟨(n.number 0).1, (number_spec n 0).1⟩

/-! ## Sets of elements -/

section Sets
variable {eset : XmlSet} {e : XmlElement} {es : List XmlElement}

/-- The elements of a set stand under their numbers. -/
def Numbered (eset : XmlSet) : Prop := ∀ k e, eset.get? k = some e → e.sequence = k

theorem mem_elements : e ∈ eset.elements ↔ ∃ k, eset.get? k = some e := by
  simp [XmlSet.elements, OrdMap.get?_eq_some]

theorem Numbered.mem_iff (h : Numbered eset) :
    e ∈ eset.elements ↔ eset.get? e.sequence = some e := by
  rw [mem_elements]
  constructor
  · rintro ⟨k, hk⟩
    rwa [h k e hk]
  · exact fun hk => ⟨_, hk⟩

theorem Numbered.increasing (h : Numbered eset) :
    (eset.elements.map XmlElement.sequence).Pairwise (· < ·) := by
  have hkeys : eset.elements.map XmlElement.sequence = eset.keys := by
    rw [XmlSet.elements, OrdMap.keys, List.map_map]
    refine List.map_congr_left fun a ha => ?_
    exact h a.1 a.2 (OrdMap.get?_eq_some.2 ha)
  rw [hkeys]
  exact OrdMap.keys_sorted

theorem Numbered.nodup (h : Numbered eset) : (eset.elements.map XmlElement.sequence).Nodup :=
  h.increasing.imp fun hlt => Nat.ne_of_lt hlt

theorem Numbered.empty : Numbered OrdMap.empty := by simp [Numbered]

theorem Numbered.addAll (h : Numbered eset) : Numbered (es.foldl XmlSet.add eset) := by
  intro k e he
  unfold XmlSet.add at he
  rw [OrdMap.get?_foldl_insert, Option.or_eq_some_iff] at he
  rcases he with he | ⟨-, he⟩
  · exact h k e he
  · simpa using List.find?_some he

/-- Elements with different numbers are put into a set unless it has their numbers. -/
theorem Numbered.mem_addAll (h : Numbered eset) (hes : (es.map XmlElement.sequence).Nodup) :
    e ∈ (es.foldl XmlSet.add eset).elements ↔
      e ∈ eset.elements ∨ (e ∈ es ∧ e.sequence ∉ eset.elements.map XmlElement.sequence) := by
  have hnone : eset.get? e.sequence = none ↔
      e.sequence ∉ eset.elements.map XmlElement.sequence := by
    rw [← not_iff_not, not_not, ← Ne, ← Option.isSome_iff_ne_none, Option.isSome_iff_exists,
      List.mem_map]
    constructor
    · rintro ⟨a, ha⟩
      exact ⟨a, mem_elements.2 ⟨_, ha⟩, h _ _ ha⟩
    · rintro ⟨a, ha, hs⟩
      exact ⟨a, hs ▸ h.mem_iff.1 ha⟩
  have hfind : (es.find? fun a => a.sequence = e.sequence) = some e ↔ e ∈ es := by
    constructor
    · exact List.mem_of_find?_eq_some
    · intro he
      cases hf : es.find? fun a => a.sequence = e.sequence with
      | none => exact absurd (by simp) (List.find?_eq_none.1 hf e he)
      | some a =>
        have hs : a.sequence = e.sequence := by simpa using List.find?_some hf
        exact congrArg some
          (List.inj_on_of_nodup_map hes (List.mem_of_find?_eq_some hf) he hs)
  rw [h.addAll.mem_iff, ← hnone, h.mem_iff]
  unfold XmlSet.add
  rw [OrdMap.get?_foldl_insert, Option.or_eq_some_iff, hfind, and_comm (a := e ∈ es)]

/-- Elements with different numbers are all put into an empty set. -/
theorem addAll_perm (hes : (es.map XmlElement.sequence).Nodup) :
    (es.foldl XmlSet.add OrdMap.empty).elements.Perm es := by
  have hentries : (es.foldl XmlSet.add OrdMap.empty).entries.Perm
      ([] ++ es.map fun a => (a.sequence, a)) :=
    OrdMap.foldl_insert_perm (fun a _ => OrdMap.get?_empty) hes
  have hvalues := hentries.map Prod.snd
  have hsnd : (es.map fun a => (a.sequence, a)).map Prod.snd = es := by
    rw [List.map_map]
    exact List.map_id es
  rwa [List.nil_append, hsnd] at hvalues

end Sets

/-! ## Filtering -/

/-- Of the elements with a name one stays. -/
theorem filterUnique_count {eset : XmlSet} (h : Numbered eset) (name : String) :
    ((filterUnique eset).elements.map XmlElement.name).count name =
      if name ∈ eset.elements.map XmlElement.name then 1 else 0 := by
  let ufm : OrdMap String XmlElement :=
    eset.elements.foldl (fun ufm pp => ufm.insert pp.name pp) OrdMap.empty
  have hget : ∀ n, ufm.get? n = eset.elements.find? fun e => e.name = n := fun n => by
    rw [OrdMap.get?_foldl_insert, OrdMap.get?_empty, Option.none_or]
  have hnames : (ufm.entries.map Prod.snd).map XmlElement.name = ufm.keys := by
    rw [OrdMap.keys, List.map_map]
    refine List.map_congr_left fun a ha => ?_
    have hfind := hget a.1 ▸ OrdMap.get?_eq_some.2 ha
    simpa using List.find?_some hfind
  have hnodup : ufm.keys.Nodup := OrdMap.keys_sorted.imp fun hlt => ne_of_lt hlt
  have hseq : ((ufm.entries.map Prod.snd).map XmlElement.sequence).Nodup := by
    refine List.Nodup.map_on (fun x hx y hy hxy => ?_) (List.Nodup.of_map _ (hnames ▸ hnodup))
    have hsub : ∀ x ∈ ufm.entries.map Prod.snd, x ∈ eset.elements := by
      intro x hx
      obtain ⟨a, ha, rfl⟩ := List.mem_map.1 hx
      exact List.mem_of_find?_eq_some (hget a.1 ▸ OrdMap.get?_eq_some.2 ha)
    exact List.inj_on_of_nodup_map h.nodup (hsub x hx) (hsub y hy) hxy
  have hperm : (filterUnique eset).elements.Perm (ufm.entries.map Prod.snd) := addAll_perm hseq
  rw [(hperm.map XmlElement.name).count_eq, hnames, hnodup.count]
  have hmem : name ∈ ufm.keys ↔ name ∈ eset.elements.map XmlElement.name := by
    rw [OrdMap.mem_keys, hget, List.find?_isSome, List.mem_map]
    simp
  simp only [hmem]

/-! ## The fields section -/

/-- The field definitions of a document. -/
def fieldsOf (xf : XmlElement) : List XmlElement := xf.found ["fix", "fields", "field"]

/-- The fields section of an output, up to its closing tag. -/
def fieldsSection (lines : List Line) : List Line :=
  (lines.dropWhile (· ≠ .opens 1 "fields" [])).takeWhile (· ≠ .closes 1 "fields")

/-- The name of the field that is defined on a line. -/
def Line.fieldName : Line → Option String
  | .opens d tag attrs
  | .empty d tag attrs =>
    if d = 2 ∧ tag = "field" then some ((lookupKey "name" attrs).getD "") else none
  | _ => none

/-- The fields section of an output has each name of a field of either document once. -/
def KeepsFields (xft xf : XmlElement) (out : Output) : Prop :=
  ∀ name ∈ (fieldsOf xft ++ fieldsOf xf).map XmlElement.name,
    ((fieldsSection out.lines).filterMap Line.fieldName).count name = 1

theorem lookup_name (e : XmlElement) :
    (lookupKey "name" (outputAttributes e true)).getD "" = e.name := by
  have hattrs : outputAttributes e true = e.attrs.entries ++
      if e.line ≠ 0 then [("line", toString e.line)] else [] := by
    simp [outputAttributes]
  have hline : lookupKey "name" (if e.line ≠ 0 then [("line", toString e.line)] else []) = none := by
    split <;> simp [lookupKey]
  rw [hattrs, lookupKey_append, hline, Option.or_none]
  rfl

/-- The lines of a field have its name once. -/
theorem fieldName_processField (e : XmlElement) :
    (processField 1 true e).filterMap Line.fieldName = [e.name] := by
  have hname := lookup_name e
  unfold processField
  split
  · have hin : (e.children.map fun c => Line.empty 3 c.tag (outputAttributes c true)).filterMap
        Line.fieldName = [] := by
      rw [List.filterMap_eq_nil_iff]
      intro x hx
      obtain ⟨c, -, rfl⟩ := List.mem_map.1 hx
      simp [Line.fieldName]
    rw [List.cons_append, List.filterMap_cons_some (b := e.name) (by simp [Line.fieldName, hname]),
      List.filterMap_append, hin]
    rfl
  · simp [Line.fieldName, hname]

theorem fieldName_elements (es : List XmlElement) :
    (es.flatMap (processField 1 true)).filterMap Line.fieldName = es.map XmlElement.name := by
  rw [List.filterMap_flatMap]
  induction es with
  | nil => rfl
  | cons e es ih => rw [List.flatMap_cons, ih, fieldName_processField, List.map_cons]; rfl

/-- The lines of a field stand further in than the tags of the section. -/
theorem processField_depth (e : XmlElement) : ∀ x ∈ processField 1 true e, 2 ≤ x.depth := by
  unfold processField
  intro x hx
  split at hx
  · simp only [List.mem_append, List.mem_cons, List.mem_map, List.mem_nil_iff, or_false] at hx
    rcases hx with (rfl | ⟨c, -, rfl⟩) | rfl <;> simp [Line.depth]
  · obtain rfl := List.mem_singleton.1 hx
    exact le_refl _

/-- The lines of a message stand between its tags, and further in. -/
theorem processMessages_depth {components : Components} {fuel : Nat} {m : XmlElement}
    {tag : String} {depth : Nat} {out : Output}
    (h : processMessages components fuel m tag depth = some out) : ∀ x ∈ out.lines,
      (∃ attrs, x = .opens (depth + 1) tag attrs) ∨ x = .closes (depth + 1) tag ∨
        depth + 2 ≤ x.depth := by
  obtain ⟨o, ho, rfl⟩ := Option.map_eq_some_iff.1 h
  have hdeep := processAll_lines (P := fun x => depth + 2 ≤ x.depth)
    (fun e _ o ho => processElements_depth ho) ho
  intro x hx
  simp only [List.mem_append, List.mem_cons, List.mem_nil_iff, or_false] at hx
  rcases hx with (rfl | hx) | rfl
  · exact .inl ⟨_, rfl⟩
  · exact .inr (.inr (hdeep x hx))
  · exact .inr (.inl rfl)

section Opening
variable {components : Components} {fuel : Nat} {out : Output}

/-- No header or trailer opens the fields section. -/
theorem processPart_opening {part : Option XmlElement} {tag : String} (ht : tag ≠ "fields")
    (h : processPart components fuel part tag = some out) :
    ∀ x ∈ out.lines, x ≠ .opens 1 "fields" [] := by
  cases part with
  | none =>
    cases h
    simp
  | some m =>
    rintro x hx rfl
    rcases processMessages_depth h _ hx with ⟨attrs, he⟩ | he | hd
    · exact ht (Line.opens.inj he).2.1.symm
    · cases he
    · exact absurd hd (by decide)

/-- Nor does a message. -/
theorem processList_opening {msglist : XmlSet} (h : processList components fuel msglist = some out) :
    ∀ x ∈ out.lines, x ≠ .opens 1 "fields" [] := by
  refine processAll_lines (fun m _ o ho x hx he => ?_) h
  subst he
  rcases processMessages_depth ho _ hx with ⟨attrs, he⟩ | he | hd
  · cases he
  · cases he
  · exact absurd hd (by decide)

end Opening

/-- The fields section of a schema that is written. -/
theorem fieldsSection_outputSchema {xf : XmlElement} {header trailer messages : Output}
    {fldlist : XmlSet} {components : Components}
    (hheader : ∀ x ∈ header.lines, x ≠ .opens 1 "fields" [])
    (htrailer : ∀ x ∈ trailer.lines, x ≠ .opens 1 "fields" [])
    (hmessages : ∀ x ∈ messages.lines, x ≠ .opens 1 "fields" []) :
    fieldsSection (outputSchema xf header trailer messages fldlist components).lines =
      .opens 1 "fields" [] :: fldlist.elements.flatMap (processField 1 true) := by
  let before := [Line.declaration, .opens 0 xf.tag (outputAttributes xf true)] ++ header.lines ++
    trailer.lines ++ [.opens 1 "messages" []] ++ messages.lines ++ [.closes 1 "messages"]
  let fields := fldlist.elements.flatMap (processField 1 true)
  have hlines : ∃ after, (outputSchema xf header trailer messages fldlist components).lines =
      before ++ (.opens 1 "fields" [] :: fields ++ .closes 1 "fields" :: after) := by
    refine ⟨(dumpComponents components).lines ++ [.closes 0 xf.tag], ?_⟩
    simp [outputSchema, Output.concat, Output.append, processFields, before, fields]
  have hbefore : ∀ x ∈ before, x ≠ .opens 1 "fields" [] := by
    intro x hx
    simp only [before, List.mem_append, List.mem_cons, List.mem_nil_iff, or_false] at hx
    rcases hx with ((((hx | hx) | hx) | rfl) | hx) | rfl
    · rcases hx with rfl | rfl <;> simp
    · exact hheader x hx
    · exact htrailer x hx
    · simp
    · exact hmessages x hx
    · simp
  have hfields : ∀ x ∈ Line.opens 1 "fields" [] :: fields, x ≠ .closes 1 "fields" := by
    intro x hx
    rcases List.mem_cons.1 hx with rfl | hx
    · simp
    · obtain ⟨e, -, hx⟩ := List.mem_flatMap.1 hx
      have hd := processField_depth e x hx
      rintro rfl
      exact absurd hd (by decide)
  obtain ⟨after, hafter⟩ := hlines
  rw [fieldsSection, hafter, List.dropWhile_append_of_pos (by simpa using hbefore)]
  rw [List.cons_append, List.dropWhile_cons_of_neg (by simp), ← List.cons_append,
    List.takeWhile_append_of_pos (by simpa using hfields), List.takeWhile_cons_of_neg (by simp),
    List.append_nil]

/-! ## The merge -/

/-- Of the application's fields those are in the merged set that have no transport field's number.
-/
theorem mem_merged (xft xf : Document) (e : XmlElement) :
    e ∈ (mergedFields xft.root xf.root true).elements ↔ e ∈ fieldsOf xft.root ∨
      (e ∈ fieldsOf xf.root ∧ e.sequence ∉ (fieldsOf xft.root).map XmlElement.sequence) := by
  have hnodup : ∀ d : Document, ((fieldsOf d.root).map XmlElement.sequence).Nodup := fun d =>
    (d.found_sorted _).imp fun hlt => Nat.ne_of_lt hlt
  have hperm : (xft.root.findSet ["fix", "fields", "field"] OrdMap.empty).elements.Perm
      (fieldsOf xft.root) := addAll_perm (hnodup xft)
  have hnumbered : Numbered (xft.root.findSet ["fix", "fields", "field"] OrdMap.empty) :=
    Numbered.empty.addAll
  have hmerged := hnumbered.mem_addAll (e := e) (hnodup xf)
  rw [hperm.mem_iff, (hperm.map XmlElement.sequence).mem_iff] at hmerged
  exact hmerged

/-- What `precompfixt` writes of the fields. -/
theorem precompfixt_fields {fuel : Nat} {xft xf : XmlElement} {nounique : Bool} {out : Output}
    (h : precompfixt fuel xft xf nounique = some out) :
    (fieldsSection out.lines).filterMap Line.fieldName =
      (mergedFields xft xf nounique).elements.map XmlElement.name := by
  obtain ⟨header, hheader, h⟩ := Option.bind_eq_some_iff.1 h
  obtain ⟨trailer, htrailer, h⟩ := Option.bind_eq_some_iff.1 h
  obtain ⟨messagesfixt, hmessagesfixt, h⟩ := Option.bind_eq_some_iff.1 h
  obtain ⟨messages, hmessages, h⟩ := Option.bind_eq_some_iff.1 h
  cases h
  have hboth : ∀ x ∈ (messagesfixt.append messages).lines, x ≠ .opens 1 "fields" [] := by
    intro x hx
    rcases List.mem_append.1 hx with hx | hx
    · exact processList_opening hmessagesfixt x hx
    · exact processList_opening hmessages x hx
  rw [fieldsSection_outputSchema (processPart_opening (by decide) hheader)
    (processPart_opening (by decide) htrailer) hboth, List.filterMap_cons_none rfl,
    fieldName_elements]

/-- Schemas without cyclic references are merged with fuel enough. -/
theorem precompfixt_total {xft xf : XmlElement} (hxft : Acyclic (Refers (componentsOf xft)))
    (hxf : Acyclic (Refers (componentsOf xf))) (nounique : Bool) :
    ∃ n out, ∀ fuel ≥ n, precompfixt fuel xft xf nounique = some out := by
  have hlist : ∀ {components : Components} (hac : Acyclic (Refers components)) (msglist : XmlSet),
      ∃ n out, ∀ fuel ≥ n, processList components fuel msglist = some out := fun hac msglist =>
    processAll_total fun m _ => processMessages_total hac m "message" 1
  obtain ⟨n₁, header, -, h₁⟩ := processPart_total hxft (xft.find ["fix", "header"]) "header"
  obtain ⟨n₂, trailer, -, h₂⟩ := processPart_total hxft (xft.find ["fix", "trailer"]) "trailer"
  obtain ⟨n₃, messagesfixt, h₃⟩ := hlist hxft (messagesOf xft)
  obtain ⟨n₄, messages, h₄⟩ := hlist hxf (messagesOf xf)
  refine ⟨n₁ + n₂ + n₃ + n₄, outputSchema xft header trailer (messagesfixt.append messages)
    (mergedFields xft xf nounique) (componentsOf xf), fun fuel hf => ?_⟩
  rw [precompfixt, h₁ fuel (by omega), h₂ fuel (by omega), h₃ fuel (by omega), h₄ fuel (by omega)]
  rfl

/-- `precompfixt` writes schemas without cyclic references. In what it writes, each name of a field
of either document stands once, exactly when the name of each application field is that of a
transport field, or of an application field whose number no transport field has. -/
theorem merged_iff (xft xf : Document) :
    (Acyclic (Refers (componentsOf xft.root)) → Acyclic (Refers (componentsOf xf.root)) →
      ∃ n out, ∀ fuel ≥ n, precompfixt fuel xft.root xf.root false = some out) ∧
    ∀ fuel out, precompfixt fuel xft.root xf.root false = some out →
      (KeepsFields xft.root xf.root out ↔ ∀ f ∈ fieldsOf xf.root,
        f.name ∈ (fieldsOf xft.root).map XmlElement.name ∨
        ∃ g ∈ fieldsOf xf.root, g.name = f.name ∧
          g.sequence ∉ (fieldsOf xft.root).map XmlElement.sequence) := by
  refine ⟨fun hxft hxf => precompfixt_total hxft hxf false, fun fuel out h => ?_⟩
  have hnumbered : Numbered (mergedFields xft.root xf.root true) :=
    Numbered.empty.addAll.addAll
  have hcount : ∀ name, ((fieldsSection out.lines).filterMap Line.fieldName).count name = 1 ↔
      name ∈ (mergedFields xft.root xf.root true).elements.map XmlElement.name := by
    intro name
    rw [precompfixt_fields h]
    refine (congrArg (· = 1) (filterUnique_count hnumbered name)).to_iff.trans ?_
    split <;> simp_all
  simp only [KeepsFields, hcount, List.map_append, List.mem_append, List.mem_map, mem_merged]
  constructor
  · intro hkeep f hf
    obtain ⟨g, hg | ⟨hg, hs⟩, hname⟩ := hkeep f.name (.inr ⟨f, hf, rfl⟩)
    · exact .inl ⟨g, hg, hname⟩
    · exact .inr ⟨g, hg, hname, by simpa using hs⟩
  · rintro hkeep name (⟨f, hf, rfl⟩ | ⟨f, hf, rfl⟩)
    · exact ⟨f, .inl hf, rfl⟩
    · rcases hkeep f hf with ⟨g, hg, hname⟩ | ⟨g, hg, hname, hs⟩
      · exact ⟨g, .inl hg, hname⟩
      · exact ⟨g, .inr ⟨hg, by simpa using hs⟩, hname⟩

/-- A document with one field. -/
def oneField (name : String) : Document := .ofNode (.mk "fix" OrdMap.empty 0
  [.mk "fields" OrdMap.empty 0 [.mk "field" (OrdMap.empty.insert "name" name) 0 []]])

/-- What is written for two such documents. -/
def oneFieldOutput (name : String) : Output :=
  ⟨[.declaration, .opens 0 "fix" [], .opens 1 "messages" [], .closes 1 "messages",
    .opens 1 "fields" [], .empty 2 "field" [("name", name)], .closes 1 "fields",
    .closes 0 "fix"], 0⟩

/-- The application's field has the number of the transport's, and is not written. -/
theorem field_lost :
    precompfixt 1 (oneField "DefaultApplVerID").root (oneField "Text").root false =
      some (oneFieldOutput "DefaultApplVerID") ∧
    ¬ KeepsFields (oneField "DefaultApplVerID").root (oneField "Text").root
      (oneFieldOutput "DefaultApplVerID") := by
  refine ⟨rfl, fun h => ?_⟩
  exact absurd (h "Text" (by simp [oneField]; decide)) (by decide)

theorem oneField_acyclic (name : String) : Acyclic (Refers (componentsOf (oneField name).root)) := by
  refine acyclic_of_rank (fun _ => 0) fun a b hab => ?_
  obtain ⟨c, r, hc, -⟩ := hab
  cases hc

theorem merged_iff_one :
    (∃ n out, ∀ fuel ≥ n, precompfixt fuel (oneField "DefaultApplVerID").root
      (oneField "Text").root false = some out) ∧
    (KeepsFields (oneField "DefaultApplVerID").root (oneField "Text").root
        (oneFieldOutput "DefaultApplVerID") ↔
      ∀ f ∈ fieldsOf (oneField "Text").root,
        f.name ∈ (fieldsOf (oneField "DefaultApplVerID").root).map XmlElement.name ∨
        ∃ g ∈ fieldsOf (oneField "Text").root, g.name = f.name ∧
          g.sequence ∉ (fieldsOf (oneField "DefaultApplVerID").root).map XmlElement.sequence) := by
  obtain ⟨htotal, hiff⟩ := merged_iff (oneField "DefaultApplVerID") (oneField "Text")
  exact ⟨htotal (oneField_acyclic _) (oneField_acyclic _),
    hiff 1 (oneFieldOutput "DefaultApplVerID") rfl⟩

end Fix8.Compiler
