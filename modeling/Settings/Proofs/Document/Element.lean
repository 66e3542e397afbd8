import Mathlib.Data.List.Induction
import Mathlib.Logic.Function.Basic
import Settings.Document.Xml.Element
import Settings.Proofs.Occurrences
import Settings.Proofs.Value.Keys

/-! # The mapping of an element

Child elements of one tag share a key, which has the value of the only one or the
list of the values of several. The keys of the attributes and of the text are none
of these, so the mapping is the attributes, the text and then one entry for each
tag, in the order in which the tags first occur.
-/

namespace Settings

namespace Mapping

variable {value : Value} {tags : List String} {tag : String} {values : String → Value}

def table (tags : List String) (values : String → Value) : Mapping :=
  tags.map fun tag => (.str tag, values tag)

theorem table_cons (first : String) (tags : List String) (values : String → Value) :
    table (first :: tags) values = (.str first, values first) :: table tags values := rfl

theorem get?_table :
    (table tags values).get? (.str tag) = if tag ∈ tags then some (values tag) else none := by
  induction tags with
  | nil => rfl
  | cons first tags ih =>
    rw [table_cons, get?_cons, same_str, ih]
    by_cases hfirst : first = tag
    · simp [hfirst]
    · simp [hfirst, Ne.symm hfirst]

theorem insert_table (hnodup : tags.Nodup) :
    (table tags values).insert (.str tag) value =
      table (if tag ∈ tags then tags else tags ++ [tag]) (Function.update values tag value) := by
  induction tags with
  | nil => simp [table, insert]
  | cons first tags ih =>
    obtain ⟨hfirst, hnodup⟩ := List.nodup_cons.1 hnodup
    rw [table_cons, insert, same_str]
    by_cases heq : first = tag
    · subst heq
      have hrest : table tags (Function.update values first value) = table tags values := by
        refine List.map_congr_left fun tag htag => ?_
        rw [Function.update_of_ne]
        rintro rfl
        exact hfirst htag
      simp [table_cons, hrest]
    · rw [if_neg (by simpa using heq), ih hnodup]
      have hmem : tag ∈ first :: tags ↔ tag ∈ tags := by simp [Ne.symm heq]
      rw [if_congr hmem rfl rfl]
      split <;> simp [table_cons, Function.update_of_ne heq]

end Mapping

namespace Document.Xml.Element

open Text

variable {m : Mapping} {e : Element} {es : List Element} {attributes : List (String × String)}
  {text tag : String} {v : Value} {vs : List Value}

def isLeaf (e : Element) : Bool := e.attributes.isEmpty && e.children.isEmpty

theorem toValue_eq (e : Element) :
    e.toValue = if e.isLeaf then .str (strip e.text) else .mapping e.toMapping := by
  obtain ⟨tag, _ | ⟨_, _⟩, text, _ | ⟨_, _⟩⟩ := e <;>
    simp [toValue, toMapping, isLeaf, attributes, children, Element.text]

theorem toValue_ne_list (e : Element) (items : List Value) : e.toValue ≠ .list items := by
  rw [toValue_eq]
  split <;> simp

def bundle : List Value → Value
  | [v] => v
  | vs => .list vs

theorem enterAll_concat (m : Mapping) (es : List Element) (e : Element) :
    enterAll m (es ++ [e]) = enter (enterAll m es) e.tag e.toValue := by
  induction es generalizing m with
  | nil => simp [enterAll]
  | cons first es ih => rw [List.cons_append, enterAll, ih, enterAll]

theorem enter_of_get? (hne : vs ≠ []) (hvs : ∀ items, .list items ∉ vs)
    (h : m.get? (.str tag) = some (bundle vs)) :
    enter m tag v = m.insert (.str tag) (bundle (vs ++ [v])) := by
  rw [enter, h]
  match vs, hne with
  | [first], _ =>
    cases first with
    | list items => exact absurd List.mem_cons_self (hvs items)
    | _ => rfl
  | first :: second :: vs, _ => rfl

def childTags (e : Element) : List String := (e.children.map Element.tag).eraseDups

def valueTagged (es : List Element) (tag : String) : Value :=
  bundle ((es.filter (·.tag = tag)).map toValue)

theorem valueTagged_concat (es : List Element) (e : Element) :
    valueTagged (es ++ [e]) = Function.update (valueTagged es) e.tag
      (bundle ((es.filter (·.tag = e.tag)).map toValue ++ [e.toValue])) := by
  funext tag
  by_cases h : tag = e.tag
  · subst h
    simp [valueTagged]
  · simp [valueTagged, h, Ne.symm h]

/-- Child elements are entered under their tags, of which there was none before. -/
theorem enterAll_eq (h : ∀ e ∈ es, m.contains (.str e.tag) = false) :
    enterAll m es = m ++ Mapping.table (es.map Element.tag).eraseDups (valueTagged es) := by
  induction es using List.reverseRecOn with
  | nil => simp [enterAll, Mapping.table]
  | append_singleton es e ih =>
    obtain ⟨hes, he⟩ := List.forall_mem_append.1 h
    have hnew := he e List.mem_cons_self
    have hget : (enterAll m es).get? (.str e.tag) =
        if e.tag ∈ es.map Element.tag then some (valueTagged es e.tag) else none := by
      rw [ih hes, Mapping.get?_append hnew, Mapping.get?_table, if_congr List.mem_eraseDups rfl rfl]
    have henter : enter (enterAll m es) e.tag e.toValue = (enterAll m es).insert (.str e.tag)
        (bundle ((es.filter (·.tag = e.tag)).map toValue ++ [e.toValue])) := by
      by_cases hmem : e.tag ∈ es.map Element.tag
      · rw [if_pos hmem] at hget
        refine enter_of_get? ?_ (fun items hitems => ?_) hget
        · obtain ⟨e', he', htag⟩ := List.mem_map.1 hmem
          have hfiltered : e' ∈ es.filter (·.tag = e.tag) :=
            List.mem_filter.2 ⟨he', by simpa using htag⟩
          exact List.ne_nil_of_mem (List.mem_map_of_mem hfiltered)
        · obtain ⟨e', -, hlist⟩ := List.mem_map.1 hitems
          exact e'.toValue_ne_list items hlist
      · have hnone : es.filter (·.tag = e.tag) = [] :=
          List.filter_eq_nil_iff.2 fun e' he' htag =>
            hmem (List.mem_map.2 ⟨e', he', by simpa using htag⟩)
        rw [if_neg hmem] at hget
        rw [enter, hget, hnone]
        rfl
    rw [enterAll_concat, henter, ih hes, Mapping.insert_append hnew,
      Mapping.insert_table (FirstOccurrences.eraseDups _).nodup,
      if_congr List.mem_eraseDups rfl rfl, valueTagged_concat, List.map_append, List.map_singleton,
      eraseDups_concat]

def attributeEntries (attributes : List (String × String)) : Mapping :=
  attributes.map fun a => (.str ("@" ++ a.1), .str a.2)

def textEntries (text : String) : Mapping :=
  if strip text = "" then [] else [(.str "#text", .str (strip text))]

theorem contains_attributeEntries :
    (attributeEntries attributes).contains (.str tag) = true ↔
      ∃ name ∈ attributes.map (·.1), "@" ++ name = tag := by
  simp [attributeEntries, Mapping.contains, Value.same]

theorem head_eq (hnodup : (attributes.map (·.1)).Nodup) (text : String) :
    head attributes text = attributeEntries attributes ++ textEntries text := by
  have hown : attributes.foldl (fun m a => Mapping.insert m (.str ("@" ++ a.1)) (.str a.2)) [] =
      attributeEntries attributes := by
    induction attributes using List.reverseRecOn with
    | nil => rfl
    | append_singleton attributes a ih =>
      rw [List.map_append, List.nodup_append] at hnodup
      have hnew : (attributeEntries attributes).contains (.str ("@" ++ a.1)) = false := by
        rw [Bool.eq_false_iff, ne_eq, contains_attributeEntries]
        rintro ⟨name, hname, heq⟩
        exact hnodup.2.2 name hname a.1 (by simp) (by simpa using heq)
      rw [List.foldl_append, ih hnodup.1, List.foldl_cons, List.foldl_nil,
        Mapping.insert_of_not_contains hnew, attributeEntries, attributeEntries, List.map_append]
      rfl
  have htext : (attributeEntries attributes).contains (.str "#text") = false := by
    rw [Bool.eq_false_iff, ne_eq, contains_attributeEntries]
    rintro ⟨name, -, heq⟩
    simpa using congrArg String.toList heq
  rw [head, hown, textEntries]
  split
  · rw [List.append_nil]
  · exact Mapping.insert_of_not_contains htext _

/-- An element tree whose tags are taken for nothing else, with unique attribute names. -/
inductive Plain : Element → Prop
  | mk {tag : String} {attributes : List (String × String)} {text : String}
      {children : List Element} (tag_ne_text : tag ≠ "#text")
      (not_marked : tag.toList.head? ≠ some '@') (names_nodup : (attributes.map (·.1)).Nodup)
      (plain : ∀ e ∈ children, Plain e) : Plain (.mk tag attributes text children)

theorem Plain.not_contains (h : e.Plain) (attributes : List (String × String)) (text : String) :
    Mapping.contains (attributeEntries attributes ++ textEntries text) (.str e.tag) = false := by
  obtain ⟨htext, hmarked, -, -⟩ := h
  rw [Mapping.contains, List.any_append, Bool.or_eq_false_iff]
  refine ⟨?_, ?_⟩
  · rw [Bool.eq_false_iff]
    intro hattribute
    obtain ⟨name, -, rfl⟩ := contains_attributeEntries.1 hattribute
    simp at hmarked
  · rw [textEntries]
    split
    · rfl
    · simp [Mapping.same_str, Element.tag, htext.symm]

theorem Plain.toMapping_eq (h : e.Plain) :
    e.toMapping = attributeEntries e.attributes ++ textEntries e.text ++
      Mapping.table e.childTags (valueTagged e.children) := by
  obtain ⟨-, -, hnodup, hplain⟩ := h
  rw [toMapping, head_eq hnodup, enterAll_eq fun e he => (hplain e he).not_contains _ _]
  rfl

theorem Plain.of_mem (h : e.Plain) {child : Element} (hchild : child ∈ e.children) :
    child.Plain := by
  obtain ⟨-, -, -, hplain⟩ := h
  exact hplain child hchild

end Document.Xml.Element

end Settings
