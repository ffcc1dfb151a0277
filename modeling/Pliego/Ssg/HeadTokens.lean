import Pliego.Lib.Fields
import Pliego.Ssg.HeadText

/-!
The tokens of a rendered head: what the tokenizer reads of every piece that `Page::render` writes.
-/

namespace Pliego

open Html

namespace Ssg

-- A text up to what every parser does to line breaks and to the character 0.
def parsed (text : List Char) : List Char :=
  (normalizeNewlines text).map replaceNul

-- The tokenizer reads a piece and goes on with what follows it.
def Segment (state final : State) (piece : List Char) (tokens : List Token) : Prop :=
  ∀ (references : References) (rest : List Char),
    Html.Reads references state (normalizeNewlines (piece ++ rest)) tokens final (normalizeNewlines rest)

variable {state middle final : State} {piece others text : List Char} {emitted more : List Token} {c : Char}

theorem Segment.append (h : Segment state middle piece emitted) (h' : Segment middle final others more)
    : Segment state final (piece ++ others) (emitted ++ more) := by
  intro references rest
  rw [List.append_assoc]
  exact (h references _).trans (h' references rest)

theorem Segment.nil : Segment state state [] [] := fun _ _ => .refl

theorem Segment.flatMap {α : Type} {f : α → List Char} {g : α → List Token} {items : List α}
    (h : ∀ item ∈ items, Segment state state (f item) (g item))
    : Segment state state (items.flatMap f) (items.flatMap g) := by
  induction items with
  | nil => exact .nil
  | cons item items ih =>
    obtain ⟨hitem, hitems⟩ := List.forall_mem_cons.mp h
    rw [List.flatMap_cons, List.flatMap_cons]
    exact hitem.append (ih hitems)

def tagText (name : String) (attributes : List (String × List Char)) : List Char :=
  writeTag name.toList (attributes.map fun (key, value) => ⟨key.toList, escapeAttribute value, value⟩)

def startTag (name : String) (attributes : List (String × List Char)) : Token :=
  start name (attributes.map fun (key, value) => (key.toList, parsed value))

theorem normalizeNewlines_attribute {key value rest : List Char} (hkey : ∀ c ∈ key, isPlain c = true)
    : normalizeNewlines (Attribute.write ⟨key, escapeAttribute value, value⟩ ++ rest)
      = Attribute.write ⟨key, escapeAttribute (normalizeNewlines value), normalizeNewlines value⟩
        ++ normalizeNewlines rest := by
  have hplain : ∀ c ∈ key, c ≠ '\r' := fun c hc => ne_of_isPlain (hkey c hc) rfl
  unfold Attribute.write
  dsimp only
  simp only [List.cons_append, List.append_assoc, List.nil_append]
  rw [normalizeNewlines_cons (by decide), normalizeNewlines_plain_append hplain, normalizeNewlines_cons (by decide),
    normalizeNewlines_cons (by decide), normalizeNewlines_append (by decide), normalizeNewlines_cons (by decide),
    normalizeNewlines_escapeAttribute]

variable {attributes : List (String × List Char)}

theorem normalizeNewlines_attributes {rest : List Char}
    (h : ∀ attr ∈ attributes, ∀ c ∈ attr.1.toList, isPlain c = true)
    : normalizeNewlines ((attributes.map fun (key, value) =>
          (⟨key.toList, escapeAttribute value, value⟩ : Attribute)).flatMap Attribute.write ++ rest)
      = (attributes.map fun (key, value) =>
          (⟨key.toList, escapeAttribute (normalizeNewlines value), normalizeNewlines value⟩ : Attribute)).flatMap
            Attribute.write ++ normalizeNewlines rest := by
  induction attributes with
  | nil => rfl
  | cons attr attributes ih =>
    obtain ⟨hattr, hothers⟩ := List.forall_mem_cons.mp h
    rw [List.map_cons, List.map_cons, List.flatMap_cons, List.flatMap_cons, List.append_assoc, List.append_assoc,
      normalizeNewlines_attribute hattr, ih hothers]

def isName (name : String) : Bool :=
  name.toList.all isPlain && name.toList.head?.any Char.isAlpha

theorem segment_tag {name : String} (hname : isName name = true)
    (hkeys : attributes.all (isName ·.1) = true) (hnodup : (attributes.map Prod.fst).Nodup)
    (hafter : ∀ values, after ⟨false, name.toList, values, false⟩ = some final)
    : Segment .data final (tagText name attributes) [startTag name attributes] := by
  intro references rest
  unfold isName at hname
  rw [Bool.and_eq_true, List.all_eq_true] at hname
  have hplain : ∀ attr ∈ attributes, (∀ c ∈ attr.1.toList, isPlain c = true) ∧ attr.1.toList ≠ [] := by
    intro attr hattr
    have hkey := List.all_eq_true.mp hkeys attr hattr
    unfold isName at hkey
    rw [Bool.and_eq_true, List.all_eq_true] at hkey
    refine ⟨hkey.1, ?_⟩
    intro hnil
    rw [hnil] at hkey
    cases hkey.2
  have hnormal : normalizeNewlines (tagText name attributes ++ rest)
      = writeTag name.toList (attributes.map fun (key, value) =>
          ⟨key.toList, escapeAttribute (normalizeNewlines value), normalizeNewlines value⟩) ++ normalizeNewlines rest := by
    have hletters : ∀ c ∈ name.toList, c ≠ '\r' := fun c hc => ne_of_isPlain (hname.1 c hc) rfl
    unfold tagText writeTag
    simp only [List.cons_append, List.append_assoc, List.nil_append]
    rw [normalizeNewlines_cons (by decide), normalizeNewlines_plain_append hletters,
      normalizeNewlines_attributes (fun attr hattr => (hplain attr hattr).1), normalizeNewlines_cons (by decide)]
  obtain ⟨first, letters, hfirst⟩ : ∃ first letters, name.toList = first :: letters := by
    cases hlist : name.toList with
    | nil =>
      rw [hlist] at hname
      cases hname.2
    | cons first letters => exact ⟨first, letters, rfl⟩
  have halpha : first.isAlpha = true := by
    have hhead := hname.2
    rw [hfirst] at hhead
    exact hhead
  have htoken : startTag name attributes = .tag ⟨false, name.toList, (attributes.map fun (key, value) =>
      (⟨key.toList, escapeAttribute (normalizeNewlines value), normalizeNewlines value⟩ : Attribute)).map
        Attribute.read, false⟩ := by
    unfold startTag start
    rw [List.map_map]
    rfl
  rw [hnormal, htoken]
  refine reads_tag hfirst halpha hname.1 ?_ ?_ (hafter _)
  . intro attr hattr
    obtain ⟨given, hgiven, rfl⟩ := List.mem_map.mp hattr
    exact ⟨(hplain given hgiven).2, (hplain given hgiven).1, written_escapeAttribute _⟩
  . rw [List.map_map]
    have hnames : attributes.map (Attribute.name ∘ fun (key, value) =>
        (⟨key.toList, escapeAttribute (normalizeNewlines value), normalizeNewlines value⟩ : Attribute))
        = (attributes.map Prod.fst).map String.toList := by
      rw [List.map_map]
      rfl
    rw [hnames]
    exact hnodup.map fun _ _ hsame => String.toList_injective hsame

theorem segment_endTag {name : String} (hname : isName name = true)
    : Segment .data .data ('<' :: '/' :: (name.toList ++ ['>'])) [stop name] := by
  intro references rest
  unfold isName at hname
  rw [Bool.and_eq_true, List.all_eq_true] at hname
  have hletters : ∀ c ∈ name.toList, c ≠ '\r' := fun c hc => ne_of_isPlain (hname.1 c hc) rfl
  simp only [List.cons_append, List.append_assoc, List.nil_append]
  rw [normalizeNewlines_cons (by decide), normalizeNewlines_cons (by decide), normalizeNewlines_plain_append hletters,
    normalizeNewlines_cons (by decide)]
  cases hlist : name.toList with
  | nil =>
    rw [hlist] at hname
    cases hname.2
  | cons first letters =>
    have hfirst := hname.2
    rw [hlist] at hfirst
    unfold stop
    rw [hlist]
    exact reads_endTag rfl hfirst (by rw [← hlist]; exact hname.1)

theorem segment_doctype : Segment .data .data "<!doctype html>".toList [.doctype ['h', 't', 'm', 'l'] false] := by
  intro references rest
  have hplain : ∀ c ∈ "<!doctype html>".toList, c ≠ '\r' := by
    intro c hc
    have hall : "<!doctype html>".toList.all (· ≠ '\r') = true := rfl
    exact of_decide_eq_true (List.all_eq_true.mp hall c hc)
  rw [normalizeNewlines_plain_append hplain]
  apply (@Reads.go _ _ _ _ _ _ (rfl : move .data '<' = _) (by decide) nofun).trans
  apply (@Reads.go _ _ _ _ _ _ (rfl : move .tagOpen '!' = _) (by decide) nofun).trans
  apply (Reads.one (rfl : step references .markup ('d' :: 'o' :: 'c' :: 't' :: 'y' :: 'p' :: 'e' :: ' ' :: 'h' :: 't'
    :: 'm' :: 'l' :: '>' :: normalizeNewlines rest) = _)).trans
  apply (@Reads.go _ _ _ _ _ _ (rfl : move .doctype ' ' = _) (by decide) nofun).trans
  apply (@Reads.go _ _ _ _ _ _ (rfl : move .beforeDoctypeName 'h' = _) (by decide) nofun).trans
  apply (@Reads.go _ _ _ _ _ _ (rfl : move (.doctypeName ['h']) 't' = _) (by decide) nofun).trans
  apply (@Reads.go _ _ _ _ _ _ (rfl : move (.doctypeName ['h', 't']) 'm' = _) (by decide) nofun).trans
  apply (@Reads.go _ _ _ _ _ _ (rfl : move (.doctypeName ['h', 't', 'm']) 'l' = _) (by decide) nofun).trans
  exact @Reads.go _ _ _ _ _ _ (rfl : move (.doctypeName ['h', 't', 'm', 'l']) '>' = _) (by decide) nofun

def textTokens (text : List Char) : List Token :=
  (parsed text).map .char

theorem characters_normalizeNewlines : characters (normalizeNewlines text) = textTokens text := by
  unfold textTokens parsed characters
  rw [List.map_map]
  rfl

theorem segment_title (text : List Char)
    : Segment .data .data ("<title>".toList ++ escapeText text ++ "</title>".toList)
        (startTag "title" [] :: (textTokens text ++ [stop "title"])) := by
  have hopen : Segment .data (.within (.rcdata ['t', 'i', 't', 'l', 'e'])) (tagText "title" []) [startTag "title" []] :=
    segment_tag rfl rfl .nil (fun _ => rfl)
  have hbody : Segment (.within (.rcdata ['t', 'i', 't', 'l', 'e'])) .data (escapeText text ++ "</title>".toList)
      (textTokens text ++ [stop "title"]) := by
    intro references rest
    have hend : "</title>".toList ++ rest = '<' :: '/' :: ("title".toList ++ '>' :: rest) := rfl
    have hletters : ∀ c ∈ "title".toList, c ≠ '\r' := by
      intro c hc
      have hall : "title".toList.all (· ≠ '\r') = true := rfl
      exact of_decide_eq_true (List.all_eq_true.mp hall c hc)
    rw [List.append_assoc, hend, normalizeNewlines_append (by decide), normalizeNewlines_cons (by decide),
      normalizeNewlines_cons (by decide), normalizeNewlines_plain_append hletters, normalizeNewlines_cons (by decide),
      normalizeNewlines_escapeText, ← characters_normalizeNewlines]
    apply (written_escapeText _).reads_rcdata.trans
    apply reads_contentEnd (rfl : (Content.rcdata ['t', 'i', 't', 'l', 'e']).name = 't' :: ['i', 't', 'l', 'e'])
    intro c hc
    have hall : ['t', 'i', 't', 'l', 'e'].all (fun c => c.isAlpha && c.toLower = c) = true := rfl
    have hboth := List.all_eq_true.mp hall c hc
    rw [Bool.and_eq_true, decide_eq_true_eq] at hboth
    exact hboth
  exact hopen.append hbody

theorem segment_script {keys : List String}
    (hkeys : attributes.map Prod.fst = keys) (hproper : keys.all isName = true) (hnodup : keys.Nodup)
    (hquiet : Quiet text)
    : Segment .data .data (tagText "script" attributes ++ (text ++ "</script>".toList))
        (startTag "script" attributes :: (textTokens text ++ [stop "script"])) := by
  have hopen : Segment .data (.within .script) (tagText "script" attributes) [startTag "script" attributes] := by
    rw [← hkeys, List.all_map] at hproper
    rw [← hkeys] at hnodup
    exact segment_tag rfl hproper hnodup (fun _ => rfl)
  have hbody : Segment (.within .script) .data (text ++ "</script>".toList) (textTokens text ++ [stop "script"]) := by
    intro references rest
    have hend : "</script>".toList ++ rest = '<' :: '/' :: (scriptName ++ '>' :: rest) := rfl
    have hletters : ∀ c ∈ scriptName, c ≠ '\r' := by
      intro c hc
      have hall : scriptName.all (· ≠ '\r') = true := rfl
      exact of_decide_eq_true (List.all_eq_true.mp hall c hc)
    rw [List.append_assoc, hend, normalizeNewlines_append (by decide), normalizeNewlines_cons (by decide),
      normalizeNewlines_cons (by decide), normalizeNewlines_plain_append hletters, normalizeNewlines_cons (by decide),
      ← characters_normalizeNewlines]
    exact reads_script hquiet.normalizeNewlines
  exact hopen.append hbody

def metaTokens (key name content : String) : List Token :=
  [startTag "meta" [(key, name.toList), ("content", content.toList)]]

def linkTokens (rel : String) (more : List (String × List Char)) (href : String) : List Token :=
  [startTag "link" (("rel", rel.toList) :: (more ++ [("href", href.toList)]))]

def scriptTokens (attributes : List (String × List Char)) (text : List Char) : List Token :=
  startTag "script" attributes :: (textTokens text ++ [stop "script"])

def Head.tokens (head : Head) : List Token :=
  startTag "title" [] :: (textTokens head.title.toList ++ [stop "title"])
    ++ head.description.toList.flatMap (metaTokens "name" "description")
    ++ head.metas.flatMap (fun (name, content) => metaTokens "name" name content)
    ++ head.propertyMeta.flatMap (fun (property, content) => metaTokens "property" property content)
    ++ head.canonical.toList.flatMap (linkTokens "canonical" [])
    ++ head.icons.flatMap (linkTokens "icon" [])
    ++ head.manifest.toList.flatMap (linkTokens "manifest" [])
    ++ head.appleTouchIcon.toList.flatMap (linkTokens "apple-touch-icon" [])
    ++ head.alternates.flatMap (fun (language, href) => linkTokens "alternate" [("hreflang", language.toList)] href)
    ++ head.stylesheetPreloads.flatMap (linkTokens "preload" [("as", "style".toList)])
    ++ head.inlineScripts.flatMap (fun script => scriptTokens [] (escapeInlineScript script.toList))
    ++ head.stylesheets.flatMap (linkTokens "stylesheet" [])
    ++ head.moduleScripts.flatMap (fun src => scriptTokens [("type", "module".toList), ("src", src.toList)] [])
    ++ head.redirect.toList.flatMap (fun location =>
      [startTag "meta" [("http-equiv", "refresh".toList), ("content", "0;url=".toList ++ location.toList)]])
    ++ head.jsonLd.flatMap (fun item => scriptTokens [("type", "application/ld+json".toList)] (jsonLdText item))

def Page.tokens {View : Type} (page : Page View) : List Token :=
  [.doctype ['h', 't', 'm', 'l'] false, startTag "html" [("lang", page.language.toList)], startTag "head" [],
    startTag "meta" [("charset", "utf-8".toList)],
    startTag "meta" [("name", "viewport".toList), ("content", "width=device-width,initial-scale=1".toList)]]
    ++ page.head.tokens ++ [stop "head", startTag "body" []]

theorem segment_void {name : String} {keys : List String}
    (hkeys : attributes.map Prod.fst = keys) (hproper : (isName name && keys.all isName) = true) (hnodup : keys.Nodup)
    (hafter : ∀ values, after ⟨false, name.toList, values, false⟩ = some .data) (hpiece : piece = tagText name attributes)
    : Segment .data .data piece [startTag name attributes] := by
  rw [Bool.and_eq_true, ← hkeys, List.all_map] at hproper
  rw [← hkeys] at hnodup
  rw [hpiece]
  exact segment_tag hproper.1 hproper.2 hnodup hafter

theorem escapeAttribute_append (xs ys : List Char)
    : escapeAttribute (xs ++ ys) = escapeAttribute xs ++ escapeAttribute ys := by
  rw [escapeAttribute_eq, escapeAttribute_eq, escapeAttribute_eq, List.flatMap_append]

theorem escapeAttribute_plain (h : text.all (fun c => c ≠ '&' && c ≠ '<' && c ≠ '>' && c ≠ '"') = true)
    : escapeAttribute text = text := by
  rw [escapeAttribute_eq]
  apply JsonText.flatMap_fixed
  intro c hc
  have hplain := List.all_eq_true.mp h c hc
  simp only [Bool.and_eq_true, decide_eq_true_eq] at hplain
  unfold attributeEscape textEscape
  rw [if_neg hplain.2, if_neg hplain.1.1.1, if_neg hplain.1.1.2, if_neg hplain.1.2]

variable (values : List (List Char × List Char))

theorem after_meta : after ⟨false, "meta".toList, values, false⟩ = some .data := by
  simp [after, elsewhere]

theorem after_link : after ⟨false, "link".toList, values, false⟩ = some .data := by
  simp [after, elsewhere]

theorem segment_pushMeta (name content : String)
    : Segment .data .data (pushMeta name content) (metaTokens "name" name content) := by
  unfold metaTokens
  refine segment_void (rfl : _ = ["name", "content"]) rfl (by decide) after_meta ?_
  unfold pushMeta tagText
  simp only [List.map_cons, List.map_nil]
  unfold writeTag
  simp only [List.flatMap_cons, List.flatMap_nil, Attribute.write, String.reduceToList, List.append_assoc,
    List.cons_append, List.nil_append]

theorem segment_pushPropertyMeta (property content : String)
    : Segment .data .data (pushPropertyMeta property content) (metaTokens "property" property content) := by
  unfold metaTokens
  refine segment_void (rfl : _ = ["property", "content"]) rfl (by decide) after_meta ?_
  unfold pushPropertyMeta tagText
  simp only [List.map_cons, List.map_nil]
  unfold writeTag
  simp only [List.flatMap_cons, List.flatMap_nil, Attribute.write, String.reduceToList, List.append_assoc,
    List.cons_append, List.nil_append]

theorem segment_pushLink {opening rel : String} (hplain : escapeAttribute rel.toList = rel.toList)
    (hopening : opening.toList = "<link rel=\"".toList ++ (rel.toList ++ "\" href=\"".toList)) (href : String)
    : Segment .data .data (pushLink opening href) (linkTokens rel [] href) := by
  unfold linkTokens
  refine segment_void (rfl : _ = ["rel", "href"]) rfl (by decide) after_link ?_
  unfold pushLink tagText
  simp only [hopening, List.map_cons, List.map_nil, hplain, List.nil_append]
  unfold writeTag
  simp only [List.flatMap_cons, List.flatMap_nil, Attribute.write, String.reduceToList, List.append_assoc,
    List.cons_append, List.nil_append]

theorem segment_pushPreload (href : String)
    : Segment .data .data (pushLink "<link rel=\"preload\" as=\"style\" href=\"" href)
        (linkTokens "preload" [("as", "style".toList)] href) := by
  unfold linkTokens
  refine segment_void (rfl : _ = ["rel", "as", "href"]) rfl (by decide) after_link ?_
  have hrel : escapeAttribute "preload".toList = "preload".toList := escapeAttribute_plain rfl
  have has : escapeAttribute "style".toList = "style".toList := escapeAttribute_plain rfl
  unfold pushLink tagText
  simp only [List.map_cons, List.map_nil, hrel, has, List.nil_append, List.cons_append]
  unfold writeTag
  simp only [List.flatMap_cons, List.flatMap_nil, Attribute.write, String.reduceToList, List.append_assoc,
    List.cons_append, List.nil_append]

theorem segment_pushAlternate (language href : String)
    : Segment .data .data (pushAlternate language href) (linkTokens "alternate" [("hreflang", language.toList)] href) := by
  unfold linkTokens
  refine segment_void (rfl : _ = ["rel", "hreflang", "href"]) rfl (by decide) after_link ?_
  have hrel : escapeAttribute "alternate".toList = "alternate".toList := escapeAttribute_plain rfl
  unfold pushAlternate tagText
  simp only [List.map_cons, List.map_nil, hrel, List.nil_append, List.cons_append]
  unfold writeTag
  simp only [List.flatMap_cons, List.flatMap_nil, Attribute.write, String.reduceToList, List.append_assoc,
    List.cons_append, List.nil_append]

theorem segment_pushRedirect (location : String)
    : Segment .data .data (pushRedirect location)
        [startTag "meta" [("http-equiv", "refresh".toList), ("content", "0;url=".toList ++ location.toList)]] := by
  refine segment_void (rfl : _ = ["http-equiv", "content"]) rfl (by decide) after_meta ?_
  have hcontent : escapeAttribute ("0;url=".toList ++ location.toList) = "0;url=".toList ++ escapeAttribute location.toList := by
    rw [escapeAttribute_append, escapeAttribute_plain rfl]
  have hrefresh : escapeAttribute "refresh".toList = "refresh".toList := escapeAttribute_plain rfl
  unfold pushRedirect tagText
  simp only [List.map_cons, List.map_nil, hcontent, hrefresh]
  unfold writeTag
  simp only [List.flatMap_cons, List.flatMap_nil, Attribute.write, String.reduceToList, List.append_assoc,
    List.cons_append, List.nil_append]

theorem segment_pushInlineScript (script : String)
    : Segment .data .data (pushInlineScript script) (scriptTokens [] (escapeInlineScript script.toList)) := by
  have hsegment := @segment_script _ [] [] rfl rfl .nil (quiet_escapeInlineScript script.toList)
  unfold pushInlineScript
  rw [List.append_assoc]
  exact hsegment

theorem quiet_of_not_mem (h : '<' ∉ text) : Quiet text := by
  intro front back hsplit
  rw [hsplit] at h
  exact absurd (List.mem_append_right _ List.mem_cons_self) h

theorem segment_pushModuleScript (script : String)
    : Segment .data .data (pushModuleScript script)
        (scriptTokens [("type", "module".toList), ("src", script.toList)] []) := by
  have hsegment : Segment .data .data
      (tagText "script" [("type", "module".toList), ("src", script.toList)] ++ ([] ++ "</script>".toList)) _ :=
    @segment_script [] _ ["type", "src"] rfl rfl (by decide) (quiet_of_not_mem List.not_mem_nil)
  have hpiece : pushModuleScript script
      = tagText "script" [("type", "module".toList), ("src", script.toList)] ++ ([] ++ "</script>".toList) := by
    have htype : escapeAttribute "module".toList = "module".toList := escapeAttribute_plain rfl
    unfold pushModuleScript tagText
    simp only [List.map_cons, List.map_nil, htype]
    unfold writeTag
    simp only [List.flatMap_cons, List.flatMap_nil, Attribute.write, String.reduceToList, List.append_assoc,
      List.cons_append, List.nil_append]
  rw [hpiece]
  exact hsegment

theorem segment_pushJsonLd (item : JsonLd)
    : Segment .data .data (pushJsonLd item)
        (scriptTokens [("type", "application/ld+json".toList)] (jsonLdText item)) := by
  have hquiet : Quiet (jsonLdText item) := by
    apply quiet_of_not_mem
    intro hmem
    cases jsonLdText_visible item _ hmem
  have hsegment : Segment .data .data
      (tagText "script" [("type", "application/ld+json".toList)] ++ (jsonLdText item ++ "</script>".toList)) _ :=
    @segment_script _ _ ["type"] rfl rfl (by decide) hquiet
  have hpiece : pushJsonLd item
      = tagText "script" [("type", "application/ld+json".toList)] ++ (jsonLdText item ++ "</script>".toList) := by
    have htype : escapeAttribute "application/ld+json".toList = "application/ld+json".toList := escapeAttribute_plain rfl
    unfold pushJsonLd tagText
    simp only [List.map_cons, List.map_nil, htype]
    unfold writeTag
    simp only [List.flatMap_cons, List.flatMap_nil, Attribute.write, String.reduceToList, List.cons_append, List.nil_append]
  rw [hpiece]
  exact hsegment

theorem segment_head (head : Head) : Segment .data .data head.write head.tokens := by
  unfold Head.write Head.tokens
  refine Segment.append ?_ (.flatMap fun item _ => segment_pushJsonLd item)
  refine Segment.append ?_ (.flatMap fun location _ => segment_pushRedirect location)
  refine Segment.append ?_ (.flatMap fun script _ => segment_pushModuleScript script)
  refine Segment.append ?_ (.flatMap fun href _ => segment_pushLink (escapeAttribute_plain rfl) rfl href)
  refine Segment.append ?_ (.flatMap fun script _ => segment_pushInlineScript script)
  refine Segment.append ?_ (.flatMap fun href _ => segment_pushPreload href)
  refine Segment.append ?_ (.flatMap fun alternate _ => segment_pushAlternate alternate.1 alternate.2)
  refine Segment.append ?_ (.flatMap fun href _ => segment_pushLink (escapeAttribute_plain rfl) rfl href)
  refine Segment.append ?_ (.flatMap fun href _ => segment_pushLink (escapeAttribute_plain rfl) rfl href)
  refine Segment.append ?_ (.flatMap fun href _ => segment_pushLink (escapeAttribute_plain rfl) rfl href)
  refine Segment.append ?_ (.flatMap fun href _ => segment_pushLink (escapeAttribute_plain rfl) rfl href)
  refine Segment.append ?_ (.flatMap fun entry _ => segment_pushPropertyMeta entry.1 entry.2)
  refine Segment.append ?_ (.flatMap fun entry _ => segment_pushMeta entry.1 entry.2)
  refine Segment.append ?_ (.flatMap fun content _ => segment_pushMeta "description" content)
  exact segment_title head.title.toList

theorem after_html : after ⟨false, "html".toList, values, false⟩ = some .data := by
  simp [after, elsewhere]

theorem after_head : after ⟨false, "head".toList, values, false⟩ = some .data := by
  simp [after, elsewhere]

theorem after_body : after ⟨false, "body".toList, values, false⟩ = some .data := by
  simp [after, elsewhere]

def opening (language : String) : List Char :=
  "<!doctype html><html lang=\"".toList ++ escapeAttribute language.toList
    ++ "\"><head><meta charset=\"utf-8\"><meta name=\"viewport\" content=\"width=device-width,initial-scale=1\">".toList

theorem opening_eq (language : String)
    : opening language = "<!doctype html>".toList ++ (tagText "html" [("lang", language.toList)]
        ++ (tagText "head" [] ++ (tagText "meta" [("charset", "utf-8".toList)]
          ++ tagText "meta" [("name", "viewport".toList), ("content", "width=device-width,initial-scale=1".toList)]))) := by
  have hcharset : escapeAttribute "utf-8".toList = "utf-8".toList := escapeAttribute_plain rfl
  have hname : escapeAttribute "viewport".toList = "viewport".toList := escapeAttribute_plain rfl
  have hcontent : escapeAttribute "width=device-width,initial-scale=1".toList
      = "width=device-width,initial-scale=1".toList := escapeAttribute_plain rfl
  unfold opening tagText
  simp only [List.map_cons, List.map_nil, hcharset, hname, hcontent]
  unfold writeTag
  simp only [List.flatMap_cons, List.flatMap_nil, Attribute.write, String.reduceToList, List.append_assoc,
    List.cons_append, List.nil_append]

theorem segment_page {View : Type} (page : Page View)
    : Segment .data .data (opening page.language ++ page.head.write ++ "</head><body>".toList) page.tokens := by
  have hopening : Segment .data .data (opening page.language)
      ([.doctype ['h', 't', 'm', 'l'] false] ++ ([startTag "html" [("lang", page.language.toList)]]
        ++ ([startTag "head" []] ++ ([startTag "meta" [("charset", "utf-8".toList)]]
          ++ [startTag "meta" [("name", "viewport".toList),
            ("content", "width=device-width,initial-scale=1".toList)]])))) := by
    rw [opening_eq]
    have hhtml : Segment .data .data (tagText "html" [("lang", page.language.toList)])
        [startTag "html" [("lang", page.language.toList)]] :=
      segment_void (rfl : _ = ["lang"]) rfl (by decide) after_html rfl
    have hhead : Segment .data .data (tagText "head" []) [startTag "head" []] :=
      segment_void (rfl : _ = []) rfl (by decide) after_head rfl
    have hcharset : Segment .data .data (tagText "meta" [("charset", "utf-8".toList)])
        [startTag "meta" [("charset", "utf-8".toList)]] :=
      segment_void (rfl : _ = ["charset"]) rfl (by decide) after_meta rfl
    have hviewport : Segment .data .data (tagText "meta" [("name", "viewport".toList),
        ("content", "width=device-width,initial-scale=1".toList)])
        [startTag "meta" [("name", "viewport".toList), ("content", "width=device-width,initial-scale=1".toList)]] :=
      segment_void (rfl : _ = ["name", "content"]) rfl (by decide) after_meta rfl
    exact segment_doctype.append (hhtml.append (hhead.append (hcharset.append hviewport)))
  have hclosing : Segment .data .data "</head><body>".toList [stop "head", startTag "body" []] := by
    have hbody : Segment .data .data (tagText "body" []) [startTag "body" []] :=
      segment_void (rfl : _ = []) rfl (by decide) after_body rfl
    exact (segment_endTag (rfl : isName "head" = true)).append hbody
  exact (hopening.append (segment_head page.head)).append hclosing

theorem render_eq_ok {View : Type} {renderHtml : View → String} {page : Page View} {document : List Char}
    (h : page.render renderHtml = .ok document)
    : validateRoute page.route = .ok () ∧ validateHeadUrls page.head = .ok ()
      ∧ document = opening page.language ++ page.head.write ++ "</head><body>".toList
        ++ (page.rendered renderHtml ++ "</body></html>\n".toList) := by
  unfold Page.render at h
  obtain ⟨⟨⟩, hroute, h⟩ := Except.bind_eq_ok.mp h
  obtain ⟨⟨⟩, hurls, h⟩ := Except.bind_eq_ok.mp h
  refine ⟨hroute, hurls, ?_⟩
  cases h
  unfold opening
  simp only [List.append_assoc]

theorem parsed_jsonLdText (item : JsonLd) : parsed (jsonLdText item) = jsonLdText item := by
  have hvisible := jsonLdText_visible item
  have hne : ∀ c ∈ jsonLdText item, ∀ d : Char, isVisible d = false → c ≠ d := by
    rintro c hc d hd rfl
    rw [hvisible c hc] at hd
    cases hd
  unfold parsed
  rw [normalizeNewlines_plain fun c hc => hne c hc _ rfl]
  have hsame : ∀ c ∈ jsonLdText item, replaceNul c = id c := fun c hc => replaceNul_of_ne (hne c hc _ rfl)
  rw [List.map_congr_left hsame, List.map_id]

theorem head_tokens {View : Type} {renderHtml : View → String} {page : Page View} {document : List Char}
    (references : References) (h : page.render renderHtml = .ok document)
    : Html.Reads references .data (normalizeNewlines document) page.tokens .data
        (normalizeNewlines (page.rendered renderHtml ++ "</body></html>\n".toList))
      ∧ (∀ script ∈ page.head.inlineScripts, Quiet (escapeInlineScript script.toList)
        ∧ Guarded script.toList (escapeInlineScript script.toList))
      ∧ ∀ item ∈ page.head.jsonLd, '<' ∉ jsonLdText item
        ∧ JsonText.Reads (Bytes.utf8 (String.ofList (parsed (jsonLdText item)))) item.value := by
  obtain ⟨-, -, hdocument⟩ := render_eq_ok h
  refine ⟨?_, ?_, ?_⟩
  . rw [hdocument]
    exact segment_page page references _
  . intro script _
    exact ⟨quiet_escapeInlineScript _, guarded_escapeInlineScript _⟩
  . intro item _
    constructor
    . intro hmem
      cases jsonLdText_visible item _ hmem
    . rw [parsed_jsonLdText]
      exact reads_jsonLdText item

def escapes : References where
  names := [(['a', 'm', 'p', ';'], ['&']), (['l', 't', ';'], ['<']), (['g', 't', ';'], ['>']),
    (['q', 'u', 'o', 't', ';'], ['"'])]
  unique := by decide
  ended := by decide
  amp := by decide
  lt := by decide
  gt := by decide
  quot := by decide

def hostilePage : Page String where
  route := "/hostile"
  language := "en\"><script>alert(1)</script>"
  head := {
    title := "</title><script>alert(2)</script>"
    inlineScripts := ["let a = '</ScRiPt><!--<script>';"]
    jsonLd := [⟨.object [("name", .text "</script>")], by
      intro part hpart lexeme hlexeme
      subst hlexeme
      simp [JsonText.Value.values, JsonText.membersValues] at hpart⟩] }
  body := "<main></main>"
  lazyRenderer := none

theorem head_tokens_hostile
    : ∃ document, hostilePage.render id = .ok document
      ∧ Html.Reads escapes .data (normalizeNewlines document) hostilePage.tokens .data
          (normalizeNewlines ("<main></main>".toList ++ "</body></html>\n".toList)) := by
  obtain ⟨document, hrender⟩ : ∃ document, hostilePage.render id = .ok document := ⟨_, rfl⟩
  exact ⟨document, hrender, (head_tokens escapes hrender).1⟩

end Ssg

end Pliego
