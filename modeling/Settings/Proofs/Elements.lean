import Mathlib.Data.List.Forall2
import Settings.Configuration.View
import Settings.Proofs.Document.Element
import Settings.Proofs.Forest.Filling

/-! # Trees of elements

The mapping of an element is written into a tree in which every element has one node. What
is below a node that is finished stays as it is while the nodes beside it are written.
-/

namespace Settings

theorem forall₂_imp_of_mem {α β : Type} {R S : α → β → Prop} {l : List α} {l' : List β}
    (h : List.Forall₂ R l l') (hRS : ∀ a ∈ l, ∀ b ∈ l', R a b → S a b) : List.Forall₂ S l l' := by
  induction h with
  | nil => exact .nil
  | cons hab _ ih =>
    refine .cons (hRS _ List.mem_cons_self _ List.mem_cons_self hab) (ih fun a ha b hb => ?_)
    exact hRS a (List.mem_cons_of_mem _ ha) b (List.mem_cons_of_mem _ hb)

namespace Document.Xml.Element

open Text

theorem induction {P : Element → Prop} (h : ∀ e, (∀ child ∈ e.children, P child) → P e) :
    ∀ e, P e
  | mk tag attributes text children => h _ fun child hchild => by
    have hlt : sizeOf child < sizeOf children := List.sizeOf_lt_of_mem hchild
    exact induction h child
termination_by e => sizeOf e
decreasing_by
  simp only [mk.sizeOf_spec]
  omega

/-- The value of the node of an element. An element that is nothing but an empty text has
this text, unless it is the document element. -/
def nodeValue (document : Bool) (e : Element) : Value :=
  if strip e.text ≠ "" then .str (strip e.text)
  else if document || !e.isLeaf then .null
  else .str ""

def grouped (e : Element) : List Element :=
  e.childTags.flatMap fun tag => e.children.filter (·.tag = tag)

theorem filter_grouped (e : Element) (tag : String) :
    e.grouped.filter (·.tag = tag) = e.children.filter (·.tag = tag) := by
  rw [grouped, childTags, filter_fibers (FirstOccurrences.eraseDups _).nodup, ite_eq_left_iff,
    eq_comm]
  intro hnone
  simp only [List.filter_eq_nil_iff, decide_eq_true_eq]
  rintro child hchild rfl
  exact hnone (List.mem_eraseDups.2 (List.mem_map_of_mem hchild))

/-- The value of a node after a text, if anything of the text is left, was written to it. -/
def textOver (text : String) (v : Value) : Value :=
  if strip text = "" then v else .str (strip text)

theorem nodeValue_of_isLeaf {e : Element} (h : e.isLeaf = true) :
    e.nodeValue false = .str (strip e.text) := by
  rw [nodeValue]
  split <;> simp_all

theorem nodeValue_of_not_isLeaf {e : Element} {document : Bool}
    (h : document = true ∨ ¬ e.isLeaf = true) :
    e.nodeValue document = textOver e.text .null := by
  rw [nodeValue, textOver]
  split <;> simp_all

theorem attributes_of_isLeaf {e : Element} (h : e.isLeaf = true) : e.attributes = [] := by
  simp_all [isLeaf]

theorem grouped_of_isLeaf {e : Element} (h : e.isLeaf = true) : e.grouped = [] := by
  simp_all [isLeaf, grouped, childTags]

theorem Plain.ofKey_tag {e : Element} (h : e.Plain) : EntryRole.ofKey e.tag = .child e.tag := by
  obtain ⟨htext, hmarked, -, -⟩ := h
  rw [EntryRole.ofKey, Element.tag, if_neg htext]
  split
  · rename_i hlist
    simp [hlist] at hmarked
  · rfl

end Document.Xml.Element

namespace Forest

open Document.Xml Text

variable {f g h : Forest} {i j : NodeId} {document : Bool} {e : Element} {es es' : List Element}
  {attributes attributes' : List (String × String)} {value value' : Value} {tag : String}

def entry (f : Forest) (i : NodeId) : Option String × Value := ((f.node i).name, (f.node i).value)

/-- A node is the node of an element: it has the attributes of the element in their order and
its value, its children of every tag are the nodes of the child elements of this tag in
document order, and these groups, ordered by the first occurrence of their tags, are all its
children. -/
inductive Depicts (f : Forest) : Bool → NodeId → Element → Prop
  | mk {document : Bool} {i : NodeId} {e : Element}
      (attributes_eq : (f.node i).attributes.map f.entry =
        e.attributes.map fun a => (some a.1, .str a.2))
      (value_eq : (f.node i).value = e.nodeValue document)
      (children_eq : (f.node i).children =
        e.childTags.flatMap fun tag => f.childrenNamed i (some tag))
      (depicted : ∀ tag, List.Forall₂ (Depicts f false) (f.childrenNamed i (some tag))
        (e.children.filter (·.tag = tag))) :
      Depicts f document i e

theorem Depicts.entries_children (h : f.Depicts document i e) :
    (f.node i).children.map f.entry =
      e.grouped.map fun child => (some child.tag, child.nodeValue false) := by
  obtain ⟨-, -, hchildren, hdepicted⟩ := h
  rw [hchildren, Element.grouped, List.map_flatMap, List.map_flatMap]
  refine List.flatMap_congr fun tag _ => ?_
  rw [← List.forall₂_eq_eq_eq, List.forall₂_map_left_iff, List.forall₂_map_right_iff]
  refine forall₂_imp_of_mem (hdepicted tag) fun c hc child hchild hdepicts => ?_
  have hname := (List.mem_filter.1 hc).2
  have htag := (List.mem_filter.1 hchild).2
  obtain ⟨-, hvalue, -, -⟩ := hdepicts
  simp only [decide_eq_true_eq] at hname htag
  rw [entry, hname, hvalue, htag]

theorem Depicts.congr (hf : f.WellFormed) (h : f.Depicts document i e)
    (hsame : ∀ j, f.Above i j → g.node j = f.node j) : g.Depicts document i e := by
  induction e using Element.induction generalizing document i with
  | h e ih =>
    obtain ⟨hattributes, hvalue, hchildren, hdepicted⟩ := h
    have hi := hsame i .here
    have hnamed (tag : String) :
        g.childrenNamed i (some tag) = f.childrenNamed i (some tag) := by
      rw [childrenNamed, childrenNamed, hi]
      exact List.filter_congr fun c hc => by rw [hsame c (hf.above_child hc)]
    refine ⟨?_, ?_, ?_, fun tag => ?_⟩
    · rw [hi, ← hattributes]
      refine List.map_congr_left fun a ha => ?_
      rw [entry, entry, hsame a (.of_parent ((hf.mem_attributes_iff i a).1 ha).1)]
    · rw [hi, hvalue]
    · simp only [hi, hnamed, hchildren]
    · rw [hnamed]
      refine forall₂_imp_of_mem (hdepicted tag) fun c hc child hchild hdepicts => ?_
      have hbelow : f.Above i c := hf.above_child (List.mem_of_mem_filter hc)
      exact ih child (List.mem_of_mem_filter hchild) hdepicts fun j hj => hsame j (hbelow.trans hj)

def Bears (f : Forest) (i : NodeId) (e : Element) : Prop :=
  (f.node i).name = some e.tag ∧ f.Depicts false i e

/-- A node of a forest was given a value and, behind what it had, attributes and the nodes
of child elements. -/
structure Sprouts (f : Forest) (i : NodeId) (g : Forest) (value : Value)
    (attributes : List (String × String)) (es : List Element) : Prop where
  growsAt : f.GrowsAt i g
  value_eq : (g.node i).value = value
  attributes_eq : ∃ new, (g.node i).attributes = (f.node i).attributes ++ new ∧
    new.map g.entry = attributes.map fun a => (some a.1, .str a.2)
  children_eq : ∃ new, (g.node i).children = (f.node i).children ++ new ∧
    List.Forall₂ g.Bears new es

theorem Sprouts.trans (hfg : f.Sprouts i g value attributes es)
    (hgh : g.Sprouts i h value' attributes' es') :
    f.Sprouts i h value' (attributes ++ attributes') (es ++ es') where
  growsAt := hfg.growsAt.trans hgh.growsAt
  value_eq := hgh.value_eq
  attributes_eq := by
    have hg := hfg.growsAt.wellFormed
    obtain ⟨new, hnew, hentries⟩ := hfg.attributes_eq
    obtain ⟨new', hnew', hentries'⟩ := hgh.attributes_eq
    refine ⟨new ++ new', by rw [hnew', hnew, List.append_assoc], ?_⟩
    have hold : new.map h.entry = new.map g.entry := by
      refine List.map_congr_left fun a ha => ?_
      have hmem : a ∈ (g.node i).attributes := hnew ▸ List.mem_append_right _ ha
      have hparent := ((hg.mem_attributes_iff i a).1 hmem).1
      rw [entry, entry, hgh.growsAt.node_eq_below hg hparent .here]
    rw [List.map_append, List.map_append, hold, hentries, hentries']
  children_eq := by
    have hg := hfg.growsAt.wellFormed
    obtain ⟨new, hnew, hbears⟩ := hfg.children_eq
    obtain ⟨new', hnew', hbears'⟩ := hgh.children_eq
    refine ⟨new ++ new', by rw [hnew', hnew, List.append_assoc], ?_⟩
    refine List.rel_append (forall₂_imp_of_mem hbears fun c hc child _ hbear => ?_) hbears'
    have hmem : c ∈ (g.node i).children := hnew ▸ List.mem_append_right _ hc
    have hparent := ((hg.mem_children_iff i c).1 hmem).1
    have hsame := fun j => hgh.growsAt.node_eq_below (j := j) hg hparent
    exact ⟨by rw [hsame c .here, hbear.1], hbear.2.congr hg hsame⟩

theorem Sprouts.refl (hf : f.WellFormed) (i : NodeId) :
    f.Sprouts i f (f.node i).value [] [] where
  growsAt := .refl hf i
  value_eq := rfl
  attributes_eq := ⟨[], by simp, rfl⟩
  children_eq := ⟨[], by simp, .nil⟩

theorem Sprouts.depicts (hfg : f.Sprouts i g (e.nodeValue document) e.attributes e.grouped)
    (hattributes : (f.node i).attributes = []) (hchildren : (f.node i).children = []) :
    g.Depicts document i e := by
  obtain ⟨as, has, hentries⟩ := hfg.attributes_eq
  obtain ⟨cs, hcs, hbears⟩ := hfg.children_eq
  rw [hattributes, List.nil_append] at has
  rw [hchildren, List.nil_append] at hcs
  have hnames : cs.map (fun c => (g.node c).name) = e.grouped.map fun child => some child.tag := by
    rw [← List.forall₂_eq_eq_eq, List.forall₂_map_left_iff, List.forall₂_map_right_iff]
    exact hbears.imp fun c child hbear => hbear.1
  refine ⟨by rw [has, hentries], hfg.value_eq, ?_, fun tag => ?_⟩
  · have hnodup : (e.childTags.map some).Nodup :=
      (FirstOccurrences.eraseDups _).nodup.map (Option.some_injective _)
    have hgrouped : e.grouped.map (fun child => some child.tag) = (e.childTags.map some).flatMap
        fun tag => (e.children.filter (some ·.tag = tag)).map (some ·.tag) := by
      simp [Element.grouped, List.map_flatMap, List.flatMap_map]
    have hlabels : ∀ tag ∈ e.childTags.map some,
        ∀ label ∈ (e.children.filter (some ·.tag = tag)).map (some ·.tag), label = tag := by
      intro tag _ label hlabel
      obtain ⟨child, hchild, rfl⟩ := List.mem_map.1 hlabel
      simpa using (List.mem_filter.1 hchild).2
    have hfibers := eq_flatMap_filter hnodup hlabels (hnames.trans hgrouped)
    rwa [List.flatMap_map, ← hcs] at hfibers
  · have hdepicts : List.Forall₂ (g.Depicts false) (cs.filter fun c => (g.node c).name = some tag)
        (e.grouped.filter (·.tag = tag)) := by
      refine (List.rel_filter (R := g.Bears) (fun c child hbear => ?_) hbears).imp
        fun c child hbear => hbear.2
      simp [hbear.1]
    rwa [childrenNamed, hcs, ← e.filter_grouped]

theorem fill_append (f : Forest) (i : NodeId) (entries entries' : Mapping) :
    f.fill i (entries ++ entries') = f.fill i entries >>= (·.fill i entries') := by
  induction entries generalizing f with
  | nil => rfl
  | cons e entries ih =>
    obtain ⟨key, value⟩ := e
    cases hkey : key.text with
    | error fault => rw [List.cons_append, fill, fill, hkey]; rfl
    | ok text =>
      rw [List.cons_append, fill_cons hkey, fill_cons hkey]
      cases EntryRole.ofKey text with
      | ownValue => exact ih _
      | attr name => exact ih _
      | child name =>
        dsimp only
        cases f.addOccurrences i name value with
        | error fault => rfl
        | ok g => exact ih g

/-- Entries can be written at every node, which changes its value and adds attributes and
the nodes of child elements. -/
def Adds (entries : Mapping) (change : Value → Value) (attributes : List (String × String))
    (es : List Element) : Prop :=
  ∀ (f : Forest) (i : NodeId), f.WellFormed → f.Has i → ∃ g, f.fill i entries = .ok g ∧
    f.Sprouts i g (change (f.node i).value) attributes es

theorem adds_nil : Adds [] id [] [] :=
  fun f i hf _ => ⟨f, by rw [fill], .refl hf i⟩

theorem Adds.append {entries entries' : Mapping} {change change' : Value → Value}
    (h : Adds entries change attributes es) (h' : Adds entries' change' attributes' es') :
    Adds (entries ++ entries') (change' ∘ change) (attributes ++ attributes') (es ++ es') := by
  intro f i hf hi
  obtain ⟨g, hg, hsprouts⟩ := h f i hf hi
  obtain ⟨g', hg', hsprouts'⟩ := h' g i hsprouts.growsAt.wellFormed (hsprouts.growsAt.has hi)
  rw [hsprouts.value_eq] at hsprouts'
  exact ⟨g', by rw [fill_append, hg, ok_bind, hg'], hsprouts.trans hsprouts'⟩

theorem ofKey_attribute (name : String) : EntryRole.ofKey ("@" ++ name) = .attr name := by
  have hne : "@" ++ name ≠ "#text" := fun h => by simpa using congrArg String.toList h
  rw [EntryRole.ofKey, if_neg hne]
  simp

theorem adds_attribute (name value : String) :
    Adds [(.str ("@" ++ name), .str value)] id [(name, value)] [] := by
  intro f i hf hi
  have hgrows : f.GrowsAt i (f.createAttribute i name (.str value)) :=
    growsAt_createLinked hf hi name (.str value) true
  have hnode (j : NodeId) : (f.createAttribute i name (.str value)).node j = _ :=
    node_createLinked (b := true) hf.consistent hi j
  have hi' := hnode i
  rw [if_neg hi.ne_new] at hi'
  refine ⟨f.createAttribute i name (.str value), ?_, hgrows, ?_, ⟨[⟨f.size⟩], ?_, ?_⟩, [], ?_, .nil⟩
  · rw [fill_cons rfl, ofKey_attribute]
    exact fill.eq_1 ..
  · rw [hi']
    rfl
  · simp [hi']
  · simp [entry, hnode]
  · simp [hi']

theorem adds_attributeEntries (attributes : List (String × String)) :
    Adds (Element.attributeEntries attributes) id attributes [] := by
  induction attributes with
  | nil => exact adds_nil
  | cons a attributes ih => exact (adds_attribute a.1 a.2).append ih

theorem adds_textEntries (text : String) :
    Adds (Element.textEntries text) (Element.textOver text) [] [] := by
  by_cases htext : strip text = ""
  · have hid : Element.textOver text = id := funext fun v => if_pos htext
    rw [Element.textEntries, if_pos htext, hid]
    exact adds_nil
  · intro f i hf hi
    rw [Element.textEntries, if_neg htext, Element.textOver, if_neg htext]
    have hfilled := filled_setValue hf hi (.str (strip text))
    refine ⟨f.setValue i (.str (strip text)), ?_, hfilled.growsAt, hfilled.value_eq, ⟨[], ?_, rfl⟩,
      [], ?_, .nil⟩
    · rw [fill_cons rfl]
      exact fill.eq_1 ..
    · exact (linked_setValue f i i _ true).trans (List.append_nil _).symm
    · exact (linked_setValue f i i _ false).trans (List.append_nil _).symm

def Grows (e : Element) : Prop :=
  ∀ (f : Forest) (i : NodeId), f.WellFormed → f.Has i →
    ∃ g, f.addOccurrences i e.tag e.toValue = .ok g ∧ f.Sprouts i g (f.node i).value [] [e]

theorem addItems_toValue (f : Forest) (i : NodeId) (name : String) (e : Element)
    (items : List Value) :
    f.addItems i name (e.toValue :: items) =
      f.addOccurrences i name e.toValue >>= (·.addItems i name items) := by
  rw [Element.toValue_eq]
  split
  · rfl
  · exact addItems_mapping ..

theorem exists_addItems_toValue (hgrows : ∀ e ∈ es, Grows e) (htag : ∀ e ∈ es, e.tag = tag)
    (hf : f.WellFormed) (hi : f.Has i) :
    ∃ g, f.addItems i tag (es.map Element.toValue) = .ok g ∧
      f.Sprouts i g (f.node i).value [] es := by
  induction es generalizing f with
  | nil => exact ⟨f, addItems.eq_1 .., .refl hf i⟩
  | cons e es ih =>
    rw [List.forall_mem_cons] at hgrows htag
    obtain ⟨g, hg, hsprouts⟩ := hgrows.1 f i hf hi
    obtain ⟨g', hg', hsprouts'⟩ := ih hgrows.2 htag.2 hsprouts.growsAt.wellFormed
      (hsprouts.growsAt.has hi)
    rw [hsprouts.value_eq] at hsprouts'
    refine ⟨g', ?_, hsprouts.trans hsprouts'⟩
    rw [List.map_cons, addItems_toValue, ← htag.1, hg, ok_bind, htag.1, hg']

theorem adds_tag (hgrows : ∀ e ∈ es, Grows e) (htag : ∀ e ∈ es, e.tag = tag)
    (hrole : EntryRole.ofKey tag = .child tag) :
    Adds [(.str tag, Element.bundle (es.map Element.toValue))] id [] es := by
  intro f i hf hi
  have hadded : ∃ g, f.addOccurrences i tag (Element.bundle (es.map Element.toValue)) = .ok g ∧
      f.Sprouts i g (f.node i).value [] es := by
    match es with
    | [e] =>
      rw [List.forall_mem_singleton] at hgrows htag
      exact htag ▸ hgrows f i hf hi
    | [] => exact exists_addItems_toValue hgrows htag hf hi
    | e :: e' :: es => exact exists_addItems_toValue hgrows htag hf hi
  obtain ⟨g, hg, hsprouts⟩ := hadded
  refine ⟨g, ?_, hsprouts⟩
  rw [fill_cons rfl, hrole]
  dsimp only
  rw [hg, ok_bind]
  exact fill.eq_1 ..

theorem adds_table (e : Element) {tags : List String} (hgrows : ∀ child ∈ e.children, Grows child)
    (hroles : ∀ tag ∈ tags, EntryRole.ofKey tag = .child tag) :
    Adds (Mapping.table tags (Element.valueTagged e.children)) id []
      (tags.flatMap fun tag => e.children.filter (·.tag = tag)) := by
  induction tags with
  | nil => exact adds_nil
  | cons tag tags ih =>
    rw [List.forall_mem_cons] at hroles
    refine (adds_tag (fun child hchild => ?_) (fun child hchild => ?_) hroles.1).append
      (ih hroles.2)
    · exact hgrows child (List.mem_of_mem_filter hchild)
    · simpa using (List.mem_filter.1 hchild).2

theorem adds_toMapping (h : e.Plain) (hgrows : ∀ child ∈ e.children, Grows child) :
    Adds e.toMapping (Element.textOver e.text) e.attributes e.grouped := by
  have hroles : ∀ tag ∈ e.childTags, EntryRole.ofKey tag = .child tag := by
    intro tag htag
    obtain ⟨child, hchild, rfl⟩ := List.mem_map.1 (List.mem_eraseDups.1 htag)
    exact (h.of_mem hchild).ofKey_tag
  rw [h.toMapping_eq]
  have hadds := ((adds_attributeEntries e.attributes).append (adds_textEntries e.text)).append
    (adds_table e hgrows hroles)
  simpa [Element.grouped] using hadds

theorem sprouts_child (hf : f.WellFormed) (hi : f.Has i)
    (hchild : Sprouts (f.createChild i e.tag value).2 ⟨f.size⟩ g (e.nodeValue false) e.attributes
      e.grouped) : f.Sprouts i g (f.node i).value [] [e] := by
  have hnode := node_of_child hf hi hchild.growsAt
  have hdepicts : g.Depicts false ⟨f.size⟩ e :=
    hchild.depicts (by rw [node_createChild hf hi]) (by rw [node_createChild hf hi])
  refine ⟨growsAt_of_child hf hi hchild.growsAt, by rw [hnode], ⟨[], by simp [hnode], rfl⟩,
    [⟨f.size⟩], by rw [hnode], ?_⟩
  exact .cons ⟨name_of_child hf hi hchild.growsAt, hdepicts⟩ .nil

theorem grows_of_plain (h : e.Plain) : Grows e := by
  induction e using Element.induction with
  | h e ih =>
    intro f i hf hi
    rw [Element.toValue_eq]
    split
    · rename_i hleaf
      have hcreated : f.GrowsAt i (f.createChild i e.tag (.str (strip e.text))).2 :=
        growsAt_createLinked hf hi e.tag _ false
      have hchild : Sprouts (f.createChild i e.tag (.str (strip e.text))).2 ⟨f.size⟩
          (f.createChild i e.tag (.str (strip e.text))).2 (e.nodeValue false) e.attributes
          e.grouped := by
        have hrefl := Sprouts.refl hcreated.wellFormed ⟨f.size⟩
        rw [node_createChild hf hi] at hrefl
        rwa [Element.attributes_of_isLeaf hleaf, Element.grouped_of_isLeaf hleaf,
          Element.nodeValue_of_isLeaf hleaf]
      exact ⟨_, rfl, sprouts_child hf hi hchild⟩
    · rename_i hleaf
      have hcreated : f.GrowsAt i (f.createChild i e.tag .null).2 :=
        growsAt_createLinked hf hi e.tag .null false
      obtain ⟨g, hg, hsprouts⟩ := adds_toMapping h
        (fun child hchild => ih child hchild (h.of_mem hchild)) _ ⟨f.size⟩ hcreated.wellFormed
        (has_createChild f i e.tag .null)
      rw [node_createChild hf hi, ← Element.nodeValue_of_not_isLeaf (.inr hleaf)] at hsprouts
      exact ⟨g, by rw [addOccurrences_mapping, hg], sprouts_child hf hi hsprouts⟩

end Forest

/-- An element tree that goes through its mapping into a tree of nodes is found there whole:
every element has become one node, with the attributes, the children and the value of the
element, and the document element has become the root. -/
theorem createFromMapping_toMapping {w : World} {e : Document.Xml.Element}
    (hf : w.forest.WellFormed) (he : e.Plain) :
    ∃ c w', (createFromMapping e.toMapping).run w = .ok c w' ∧ w'.forest.WellFormed ∧
      w'.forest.Depicts true (w'.root c) e := by
  have hroot : (w.forest.create none .null false).2.node ⟨w.forest.size⟩ = .lone none .null false :=
    (Forest.node_create ..).trans (if_pos rfl)
  obtain ⟨g, hg, hsprouts⟩ := Forest.adds_toMapping he
    (fun child hchild => Forest.grows_of_plain (he.of_mem hchild)) _ ⟨w.forest.size⟩
    (hf.create none .null false) (Forest.has_create.2 (.inr rfl))
  rw [hroot, Node.lone, ← Document.Xml.Element.nodeValue_of_not_isLeaf (.inl rfl)] at hsprouts
  obtain ⟨c, w', hrun, hforest, hc, -⟩ := run_createFromMapping hg
  have hrooted : w'.root c = ⟨w.forest.size⟩ := congrArg Configuration.root hc
  refine ⟨c, w', hrun, ?_⟩
  rw [hforest, hrooted]
  refine ⟨hsprouts.growsAt.wellFormed, hsprouts.depicts ?_ ?_⟩
  · rw [hroot, Node.lone]
  · rw [hroot, Node.lone]

/-- A tag for an empty element, for one with a child and, in between, for none. -/
theorem createFromMapping_toMapping_mixed :
    let e : Document.Xml.Element :=
      .mk "r" [("x", "1"), ("y", "")] " t "
        [.mk "b" [] "" [], .mk "c" [("k", "v")] " " [], .mk "b" [] "u" [.mk "b" [] "" []]]
    e.Plain ∧ ∃ c w', (createFromMapping e.toMapping).run (.fresh []) = .ok c w' ∧
      w'.forest.WellFormed ∧ w'.forest.Depicts true (w'.root c) e ∧
      (w'.forest.node (w'.root c)).value = .str "t" ∧
      (w'.forest.node (w'.root c)).attributes.map w'.forest.entry =
        [(some "x", .str "1"), (some "y", .str "")] ∧
      (w'.forest.node (w'.root c)).children.map w'.forest.entry =
        [(some "b", .str ""), (some "b", .str "u"), (some "c", .null)] := by
  have hempty : (Document.Xml.Element.mk "b" [] "" []).Plain :=
    .mk (by decide) (by decide) (by decide) (by simp)
  have hlone : (Document.Xml.Element.mk "c" [("k", "v")] " " []).Plain :=
    .mk (by decide) (by decide) (by decide) (by simp)
  have hparent : (Document.Xml.Element.mk "b" [] "u" [.mk "b" [] "" []]).Plain :=
    .mk (by decide) (by decide) (by decide) (by simpa using hempty)
  have hplain : Document.Xml.Element.Plain (.mk "r" [("x", "1"), ("y", "")] " t "
      [.mk "b" [] "" [], .mk "c" [("k", "v")] " " [], .mk "b" [] "u" [.mk "b" [] "" []]]) :=
    .mk (by decide) (by decide) (by decide) (by simp [hempty, hlone, hparent])
  obtain ⟨c, w', hrun, hwellFormed, hdepicts⟩ :=
    createFromMapping_toMapping (w := .fresh []) Forest.WellFormed.empty hplain
  have hentries := hdepicts.entries_children
  refine ⟨hplain, c, w', hrun, hwellFormed, hdepicts, ?_⟩
  obtain ⟨hattributes, hvalue, -, -⟩ := hdepicts
  exact ⟨hvalue, hattributes, hentries⟩

end Settings
