import Fix8.Compiler.Find
import Fix8.Compiler.Proof.Merge

/-!
# What a search finds

The elements that a path reaches from an element, in the order of the document; both searches come
to these, unless the element where they begin is itself named by the whole path, slashes included.
A set then holds them in that order when their numbers increase in it, as those of a parsed
document do.

* `mem_reached`, `reached_sublist`: what a path reaches;
* `findFirst_eq`, `findEach_eq`: what the searches come to;
* **`find_iff`**: when they are what a path reaches.
-/

namespace Fix8.Compiler

open Lib

namespace XmlElement

/-! ## What a path reaches -/

/-- A path from an element to one within it: the tags on the way, both ends included. -/
inductive Reaches : List String → XmlElement → XmlElement → Prop where
  | here (e : XmlElement) : Reaches [e.tag] e e
  | step {path : List String} {e c x : XmlElement} (hc : c ∈ e.children) (h : Reaches path c x) :
    Reaches (e.tag :: path) e x

/-- The elements that a path reaches, in the order of the document. -/
def reached : List String → XmlElement → List XmlElement
  | [], _ => []
  | [what], e => if e.tag = what then [e] else []
  | what :: next :: path, e =>
    if e.tag = what then e.children.flatMap (reached (next :: path)) else []

theorem Reaches.ne_nil {path : List String} {e x : XmlElement} (h : Reaches path e x) :
    path ≠ [] := by
  cases h <;> exact List.cons_ne_nil _ _

theorem mem_reached {path : List String} {e x : XmlElement} :
    x ∈ reached path e ↔ Reaches path e x := by
  induction path generalizing e with
  | nil => exact ⟨fun h => absurd h List.not_mem_nil, fun h => absurd rfl h.ne_nil⟩
  | cons what path ih =>
    cases path with
    | nil =>
      rw [reached]
      constructor
      · intro h
        split at h
        · next htag =>
          rw [List.mem_singleton.1 h, ← htag]
          exact .here e
        · cases h
      · intro h
        cases h with
        | here => simp
        | step hc h => exact absurd rfl h.ne_nil
    | cons next path =>
      rw [reached]
      constructor
      · intro h
        split at h
        · next htag =>
          obtain ⟨c, hc, hx⟩ := List.mem_flatMap.1 h
          rw [← htag]
          exact .step hc (ih.1 hx)
        · cases h
      · intro h
        cases h with
        | step hc h =>
          rw [if_pos rfl]
          exact List.mem_flatMap.2 ⟨_, hc, ih.2 h⟩

theorem reached_sublist (path : List String) (e : XmlElement) :
    (reached path e).Sublist e.preorder := by
  induction path generalizing e with
  | nil => exact List.nil_sublist _
  | cons what path ih =>
    rw [preorder_eq]
    cases path with
    | nil =>
      rw [reached]
      split
      · exact List.singleton_sublist.2 List.mem_cons_self
      · exact List.nil_sublist _
    | cons next path =>
      rw [reached]
      split
      · refine List.Sublist.cons e ?_
        induction e.children with
        | nil => exact List.Sublist.refl _
        | cons c cs ihc =>
          rw [List.flatMap_cons, List.flatMap_cons]
          exact (ih c).append ihc
      · exact List.nil_sublist _

/-- Nothing is reached from an element of another name. -/
theorem reached_of_ne {what : String} {path : List String} {e : XmlElement} (h : e.tag ≠ what) :
    reached (what :: path) e = [] := by
  cases path <;> rw [reached, if_neg h]

/-- So it is enough to go on from the children of the next name. -/
theorem reached_children {next : String} {path : List String} (e : XmlElement) :
    (e.childrenNamed next).flatMap (reached (next :: path)) =
      e.children.flatMap (reached (next :: path)) := by
  unfold childrenNamed
  induction e.children with
  | nil => rfl
  | cons c cs ih =>
    rw [List.filter_cons, List.flatMap_cons]
    split
    · rw [List.flatMap_cons, ih]
    · next hne =>
      rw [reached_of_ne (by simpa using hne), ih, List.nil_append]

/-! ## Paths -/

/-- A path that begins at the root. -/
def RootBased (path : List String) : Prop := ∃ what rest, path = "" :: "" :: what :: rest

/-- An element that is itself named by a path of several parts. -/
def NamedBy (path : List String) (e : XmlElement) : Prop :=
  2 ≤ path.length ∧ "/".intercalate path = e.tag

instance (path : List String) (e : XmlElement) : Decidable (NamedBy path e) := by
  unfold NamedBy
  infer_instance

/-- Only the root may be without a name. -/
def Named (e : XmlElement) : Prop := ∀ c ∈ e.children.flatMap preorder, c.tag ≠ ""

theorem self_mem_preorder (e : XmlElement) : e ∈ e.preorder := by
  rw [preorder_eq]
  exact List.mem_cons_self

theorem Named.child {e c : XmlElement} (h : Named e) (hc : c ∈ e.children) :
    c.tag ≠ "" ∧ Named c := by
  refine ⟨h c (List.mem_flatMap.2 ⟨c, hc, self_mem_preorder c⟩), fun x hx => ?_⟩
  refine h x (List.mem_flatMap.2 ⟨c, hc, ?_⟩)
  rw [preorder_eq]
  exact List.mem_cons_of_mem _ hx

theorem not_namedBy_single {what : String} {e : XmlElement} : ¬NamedBy [what] e :=
  fun h => absurd h.1 (by simp)

/-- An element that is named by the first part of a path is not named by all of it. -/
theorem not_namedBy {path : List String} {e : XmlElement} : ¬NamedBy (e.tag :: path) e := by
  cases path with
  | nil => exact not_namedBy_single
  | cons next path =>
    rintro ⟨-, htag⟩
    rw [String.intercalate_cons_cons] at htag
    have hlength := congrArg String.length htag
    have hslash : "/".length = 1 := rfl
    rw [String.length_append, String.length_append, hslash] at hlength
    omega

/-- Nor does the path go back to the root. -/
theorem not_rootBased {what : String} {path : List String} (h : what ≠ "") :
    ¬RootBased (what :: path) := by
  rintro ⟨_, _, heq⟩
  exact h (List.cons.inj heq).1

theorem tag_of_childrenNamed {next : String} {e c : XmlElement} (hc : c ∈ e.childrenNamed next) :
    c.tag = next := by
  simpa using (List.mem_filter.1 hc).2

/-- The rest of a path, at a child of the next name: it does not go back to the root, and is no name
of the child. -/
theorem Named.rest {next : String} {e c : XmlElement} (h : Named e) (path : List String)
    (hc : c ∈ e.childrenNamed next) :
    ¬RootBased (next :: path) ∧ Named c ∧ ¬NamedBy (next :: path) c := by
  obtain ⟨hne, hchild⟩ := h.child (List.mem_filter.1 hc).1
  obtain rfl := tag_of_childrenNamed hc
  exact ⟨not_rootBased hne, hchild, not_namedBy⟩

theorem namedBy_iff {what next : String} {path : List String} {e : XmlElement} :
    NamedBy (what :: next :: path) e ↔ "/".intercalate (what :: next :: path) = e.tag :=
  and_iff_right (by simp)

/-! ## The searches -/

theorem findSome?_congr {α β : Type} {f g : α → Option β} {l : List α}
    (h : ∀ a ∈ l, f a = g a) : l.findSome? f = l.findSome? g := by
  induction l with
  | nil => rfl
  | cons a l ih =>
    rw [List.findSome?_cons, List.findSome?_cons, h a List.mem_cons_self,
      ih fun b hb => h b (List.mem_cons_of_mem _ hb)]

section Searches
variable {root : XmlElement} {atag aval : Option String}

theorem findFirst_eq {path : List String} {e : XmlElement} (hroot : ¬RootBased path)
    (hnamed : Named e) : findFirst root atag aval path e =
      if NamedBy path e then (if e.passes atag aval then some e else none)
      else ((reached path e).filter (passes atag aval)).head? := by
  induction path generalizing e with
  | nil => rfl
  | cons what path ih =>
    cases path with
    | nil =>
      rw [if_neg not_namedBy_single, findFirst, reached]
      by_cases htag : e.tag = what
      · rw [if_pos htag.symm, if_pos htag, List.filter_singleton]
        cases e.passes atag aval <;> rfl
      · rw [if_neg (Ne.symm htag), if_neg htag]
        rfl
    | cons next path =>
      rw [findFirst.eq_4 _ _ _ _ _ _ _ fun r rest h1 h2 h3 => hroot ⟨r, rest, by rw [h1, h2, h3]⟩]
      by_cases hself : "/".intercalate (what :: next :: path) = e.tag
      · rw [if_pos hself, if_pos (namedBy_iff.2 hself)]
      · rw [if_neg hself, if_neg (mt namedBy_iff.1 hself), reached]
        by_cases htag : e.tag = what
        · rw [if_pos htag.symm, if_pos htag, ← reached_children, List.filter_flatMap,
            List.head?_flatMap]
          refine findSome?_congr fun c hc => ?_
          obtain ⟨hrest, hchild, hother⟩ := hnamed.rest path hc
          rw [ih hrest hchild, if_neg hother]
        · rw [if_neg (Ne.symm htag), if_neg htag]
          rfl

theorem findEach_eq {path : List String} {e : XmlElement} {eset : XmlSet}
    (hroot : ¬RootBased path) (hnamed : Named e) : (findEach root atag aval path e eset).1 =
      if NamedBy path e then (if e.passes atag aval then eset.add e else eset)
      else ((reached path e).filter (passes atag aval)).foldl XmlSet.add eset := by
  induction path generalizing e eset with
  | nil => rfl
  | cons what path ih =>
    cases path with
    | nil =>
      rw [if_neg not_namedBy_single, findEach, reached]
      by_cases htag : e.tag = what
      · rw [if_pos htag.symm, if_pos htag, List.filter_singleton]
        cases e.passes atag aval <;> rfl
      · rw [if_neg (Ne.symm htag), if_neg htag]
        rfl
    | cons next path =>
      rw [findEach.eq_4 _ _ _ _ _ _ _ _ fun r rest h1 h2 h3 =>
        hroot ⟨r, rest, by rw [h1, h2, h3]⟩]
      by_cases hself : "/".intercalate (what :: next :: path) = e.tag
      · rw [if_pos hself, if_pos (namedBy_iff.2 hself)]
        split <;> rfl
      · rw [if_neg hself, if_neg (mt namedBy_iff.1 hself), reached]
        by_cases htag : e.tag = what
        · rw [if_pos htag, ← reached_children, List.filter_flatMap, List.foldl_flatMap]
          have hfold : (e.childrenNamed next).foldl
              (fun eset c => (findEach root atag aval (next :: path) c eset).1) eset =
              (e.childrenNamed next).foldl (fun eset c =>
                ((reached (next :: path) c).filter (passes atag aval)).foldl XmlSet.add eset) eset := by
            refine List.foldl_ext _ _ _ fun eset c hc => ?_
            obtain ⟨hrest, hchild, hother⟩ := hnamed.rest path hc
            rw [ih hrest hchild, if_neg hother]
          rw [← hfold]
          by_cases hchildren : e.children = []
          · rw [if_neg fun h => h.2 hchildren, childrenNamed, hchildren]
            rfl
          · rw [if_pos ⟨htag.symm, hchildren⟩]
        · rw [if_neg fun h => htag h.1.symm, if_neg htag]
          rfl

/-- Without an attribute to compare, and from the element where it is called, `found` is what the
searches come to. -/
theorem found_eq (path : List String) (e : XmlElement) :
    e.found path = if NamedBy path e then [e] else reached path e := by
  induction path generalizing e with
  | nil => rfl
  | cons what path ih =>
    cases path with
    | nil =>
      rw [if_neg not_namedBy_single, found, reached]
      simp only [eq_comm]
    | cons next path =>
      rw [found]
      by_cases hself : "/".intercalate (what :: next :: path) = e.tag
      · rw [if_pos hself, if_pos (namedBy_iff.2 hself)]
      · rw [if_neg hself, if_neg (mt namedBy_iff.1 hself), reached, ← reached_children]
        by_cases htag : e.tag = what
        · rw [if_pos htag.symm, if_pos htag]
          refine List.flatMap_congr fun c hc => ?_
          obtain rfl := tag_of_childrenNamed hc
          rw [ih, if_neg not_namedBy]
        · rw [if_neg (Ne.symm htag), if_neg htag]

theorem findFirst_find {path : List String} {e : XmlElement} (hroot : ¬RootBased path)
    (hnamed : Named e) : findFirst root none none path e = e.find path := by
  have hpass : ∀ l : List XmlElement, l.filter (passes none none) = l :=
    fun l => List.filter_eq_self.2 fun _ _ => rfl
  rw [findFirst_eq hroot hnamed, hpass, find, found_eq]
  split <;> rfl

theorem findEach_findSet {path : List String} {e : XmlElement} {eset : XmlSet}
    (hroot : ¬RootBased path) (hnamed : Named e) :
    (findEach root none none path e eset).1 = e.findSet path eset := by
  have hpass : ∀ l : List XmlElement, l.filter (passes none none) = l :=
    fun l => List.filter_eq_self.2 fun _ _ => rfl
  rw [findEach_eq hroot hnamed, hpass, findSet, found_eq]
  split <;> rfl

/-! ## Where a search begins -/

/-- The path that is left, and the element it begins at, when no more leads to the root. -/
def startOf (root : XmlElement) : List String → XmlElement → List String × XmlElement
  | "" :: "" :: what :: path, _ => startOf root (what :: path) root
  | path, e => (path, e)

theorem findFirst_startOf (path : List String) (e : XmlElement) :
    findFirst root atag aval path e =
      findFirst root atag aval (startOf root path e).1 (startOf root path e).2 := by
  fun_induction startOf root path e with
  | case1 what path e ih => rw [findFirst, ih]
  | case2 => rfl

theorem findEach_startOf (path : List String) (e : XmlElement) (eset : XmlSet) :
    findEach root atag aval path e eset =
      findEach root atag aval (startOf root path e).1 (startOf root path e).2 eset := by
  fun_induction startOf root path e with
  | case1 what path e ih => rw [findEach, ih]
  | case2 => rfl

theorem startOf_not_rootBased (path : List String) (e : XmlElement) :
    ¬RootBased (startOf root path e).1 := by
  fun_induction startOf root path e with
  | case1 what path e ih => exact ih
  | case2 path e hpath =>
    rintro ⟨what, rest, rfl⟩
    exact hpath what rest rfl

theorem startOf_inside {path : List String} {e : XmlElement} (h : e ∈ root.preorder) :
    (startOf root path e).2 ∈ root.preorder := by
  fun_induction startOf root path e with
  | case1 what path e ih => exact ih (self_mem_preorder root)
  | case2 => exact h

end Searches

/-- What stands in an element stands in what it stands in, in that order. -/
theorem preorder_sublist {root e : XmlElement} (h : e ∈ root.preorder) :
    e.preorder.Sublist root.preorder := by
  rw [preorder_eq root] at h ⊢
  rcases List.mem_cons.1 h with rfl | h
  · rw [preorder_eq e]
  · obtain ⟨c, hc, he⟩ := List.mem_flatMap.1 h
    have hlt : sizeOf c < sizeOf root := by
      have := List.sizeOf_lt_of_mem hc
      cases root
      simp only [mk.sizeOf_spec] at *
      omega
    have hsub : c.preorder.Sublist (root.children.flatMap preorder) :=
      List.sublist_flatten_of_mem (List.mem_map_of_mem hc)
    exact ((preorder_sublist he).trans hsub).cons root
termination_by sizeOf root

theorem Named.of_mem {root e : XmlElement} (h : Named root) (he : e ∈ root.preorder) : Named e := by
  intro c hc
  rw [preorder_eq root] at he
  rcases List.mem_cons.1 he with rfl | hin
  · exact h c hc
  · -- `e` stands below the root, and so does what stands in it
    have hbelow : e.preorder.Sublist (root.children.flatMap preorder) := by
      obtain ⟨d, hd, hed⟩ := List.mem_flatMap.1 hin
      exact (preorder_sublist hed).trans (List.sublist_flatten_of_mem (List.mem_map_of_mem hd))
    refine h c (hbelow.subset ?_)
    rw [preorder_eq]
    exact List.mem_cons_of_mem _ hc

end XmlElement

/-! ## Trees -/

/-- A tree as the parser makes it, and an element of it at which a search begins: no element but
the root is without a name. -/
structure ElementTree where
  root : XmlElement
  start : XmlElement
  inside : start ∈ root.preorder
  named : root.Named

namespace ElementTree

open XmlElement

variable (t : ElementTree) (path : List String) (atag aval : Option String)

/-- What the path reaches and has the attribute, in the order of the document. -/
def wanted : List XmlElement :=
  (reached (startOf t.root path t.start).1 (startOf t.root path t.start).2).filter
    (passes atag aval)

/-- What the set-valued search collects. -/
def collected : List XmlElement :=
  (findEach t.root atag aval path t.start OrdMap.empty).1.elements

/-- What the single-valued search returns. -/
def first : Option XmlElement := findFirst t.root atag aval path t.start

/-- The searches find what they should. -/
def Agrees : Prop :=
  t.collected path atag aval = t.wanted path atag aval ∧
    t.first path atag aval = (t.wanted path atag aval).head? ∧
    (t.first path atag aval = none ↔ t.collected path atag aval = [])

/-- The search begins at an element named by the whole path, which has the attribute. -/
def SelfNamed : Prop :=
  NamedBy (startOf t.root path t.start).1 (startOf t.root path t.start).2 ∧
    (startOf t.root path t.start).2.passes atag aval = true

variable {t path atag aval}

theorem named_start : Named (startOf t.root path t.start).2 :=
  t.named.of_mem (startOf_inside t.inside)

theorem first_eq : t.first path atag aval =
    if NamedBy (startOf t.root path t.start).1 (startOf t.root path t.start).2 then
      (if (startOf t.root path t.start).2.passes atag aval then
        some (startOf t.root path t.start).2 else none)
    else (t.wanted path atag aval).head? := by
  rw [first, findFirst_startOf, findFirst_eq (startOf_not_rootBased path t.start) named_start]
  rfl

theorem collected_eq : t.collected path atag aval =
    if NamedBy (startOf t.root path t.start).1 (startOf t.root path t.start).2 then
      (if (startOf t.root path t.start).2.passes atag aval then
        [(startOf t.root path t.start).2] else [])
    else ((t.wanted path atag aval).foldl XmlSet.add OrdMap.empty).elements := by
  rw [collected, findEach_startOf, findEach_eq (startOf_not_rootBased path t.start) named_start]
  split
  · split <;> rfl
  · rfl

/-- A set holds elements in the order in which they are put in when that is the order of their
numbers. -/
theorem elements_addAll {es : List XmlElement} :
    (es.foldl XmlSet.add OrdMap.empty).elements = es ↔
      (es.map XmlElement.sequence).Pairwise (· < ·) := by
  have hsorted : ((es.foldl XmlSet.add OrdMap.empty).elements.map
      XmlElement.sequence).Pairwise (· < ·) := Numbered.empty.addAll.increasing
  constructor
  · intro h
    rwa [h] at hsorted
  · intro h
    have hperm := addAll_perm (h.imp fun hlt => Nat.ne_of_lt hlt)
    exact hperm.eq_of_pairwise (fun a b _ _ hab hba => absurd (hab.trans hba) (lt_irrefl _))
      (List.pairwise_map.1 hsorted) (List.pairwise_map.1 h)

theorem wanted_of_namedBy
    (h : NamedBy (startOf t.root path t.start).1 (startOf t.root path t.start).2) :
    t.wanted path atag aval = [] := by
  unfold wanted
  generalize (startOf t.root path t.start).1 = what at h ⊢
  cases what with
  | nil => rfl
  | cons p ps =>
    rw [reached_of_ne]
    · rfl
    · rintro rfl
      exact not_namedBy h

/-- The numbers of what is wanted increase in a tree that is numbered in the order of the document,
as a parsed one is. -/
theorem wanted_increasing (d : Document) (h : t.root = d.root) :
    ((t.wanted path atag aval).map XmlElement.sequence).Pairwise (· < ·) := by
  have hsub : (t.wanted path atag aval).Sublist d.root.preorder := by
    rw [← h]
    exact (List.filter_sublist.trans (reached_sublist _ _)).trans
      (preorder_sublist (startOf_inside t.inside))
  exact d.ordered.sublist (hsub.map _)

/-- **Both searches find what the path reaches**, the set in the order of the document, exactly when
the search does not begin at an element named by the whole path and the numbers increase. -/
theorem find_iff (t : ElementTree) (path : List String) (atag aval : Option String) :
    t.Agrees path atag aval ↔ ¬t.SelfNamed path atag aval ∧
      ((t.wanted path atag aval).map XmlElement.sequence).Pairwise (· < ·) := by
  unfold Agrees SelfNamed
  rw [first_eq, collected_eq]
  by_cases hname : NamedBy (startOf t.root path t.start).1 (startOf t.root path t.start).2
  · rw [if_pos hname, if_pos hname, wanted_of_namedBy hname]
    by_cases hpass : (startOf t.root path t.start).2.passes atag aval = true
    · simp [hname, hpass]
    · simp [hpass]
  · rw [if_neg hname, if_neg hname, elements_addAll]
    constructor
    · exact fun h => ⟨fun hself => hname hself.1, h.1⟩
    · rintro ⟨-, hsorted⟩
      refine ⟨hsorted, rfl, ?_⟩
      rw [elements_addAll.2 hsorted, List.head?_eq_none_iff]

/-- A tag with a slash in it. -/
theorem find_slash : ¬∀ (t : ElementTree) (path : List String) (atag aval : Option String),
    t.Agrees path atag aval := by
  intro h
  let root : XmlElement :=
    { tag := "a/b", attrs := OrdMap.empty, sequence := 1, line := 1, children := [] }
  let t : ElementTree := ⟨root, root, self_mem_preorder root, fun c hc => absurd hc List.not_mem_nil⟩
  have hfirst := congrArg Option.isSome (h t ["a", "b"] none none).2.1
  have hself : (t.first ["a", "b"] none none).isSome = true := by decide +kernel
  have hnone : (t.wanted ["a", "b"] none none).head?.isSome = false := by decide +kernel
  exact absurd (hself.symm.trans (hfirst.trans hnone)) (by decide)

end ElementTree

end Fix8.Compiler
