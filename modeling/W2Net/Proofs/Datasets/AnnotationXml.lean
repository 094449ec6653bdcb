import W2Net.Datasets.AnnotationXml

/-!
# `W2Net.Proofs.Datasets.AnnotationXml`: the text and the tree have the same fields

In an object of the format, the text between the first tags with a name is the text of
the element with this tag: `cut_child` for an element of the object, and
`cut_groupLeaf` for an element of a group.

`TagsFrom` follows the tags of a list of tokens, which is what a search needs to know
about the tokens in front of an element.
-/

set_option autoImplicit false

namespace W2Net.Proofs.AnnotationXml

open W2Net.AnnotationXml
open W2Net.Text (Token)

/-! ### The tags of a list of tokens -/

/-- All tags of the tokens open or close an element of `tags`. -/
def TagsFrom (toks : List Token) (tags : List String) : Prop :=
  ∀ name, Token.tag name ∈ toks → ∃ tag ∈ tags, name = tag.toList ∨ name = '/' :: tag.toList

theorem TagsFrom.append {toks toks' : List Token} {tags tags' : List String}
    (h : TagsFrom toks tags) (h' : TagsFrom toks' tags') : TagsFrom (toks ++ toks') (tags ++ tags') := by
  intro name hname
  rcases List.mem_append.mp hname with hname | hname
  · obtain ⟨tag, htag, heq⟩ := h name hname
    exact ⟨tag, List.mem_append_left _ htag, heq⟩
  · obtain ⟨tag, htag, heq⟩ := h' name hname
    exact ⟨tag, List.mem_append_right _ htag, heq⟩

theorem TagsFrom.flatMap {α : Type} {f : α → List Token} {g : α → List String} {l : List α}
    (h : ∀ a ∈ l, TagsFrom (f a) (g a)) : TagsFrom (l.flatMap f) (l.flatMap g) := by
  intro name hname
  obtain ⟨a, ha, hname⟩ := List.mem_flatMap.mp hname
  obtain ⟨tag, htag, heq⟩ := h a ha name hname
  exact ⟨tag, List.mem_flatMap.mpr ⟨a, ha, htag⟩, heq⟩

theorem tagsFrom_data (s : Text) : TagsFrom [.data s] [] := by
  intro name hname
  simp at hname

theorem tagsFrom_openTag (tag : String) : TagsFrom [openTag tag] [tag] := by
  intro name hname
  simp only [openTag, List.mem_singleton, Token.tag.injEq] at hname
  exact ⟨tag, List.mem_singleton_self _, Or.inl hname⟩

theorem tagsFrom_leaf (l : Leaf) : TagsFrom l.tokens [l.tag] := by
  intro name hname
  simp only [Leaf.tokens, openTag, closeTag, List.mem_cons, Token.tag.injEq, reduceCtorEq,
    List.not_mem_nil, or_false, false_or] at hname
  exact ⟨l.tag, List.mem_singleton_self _, hname⟩

theorem tagsFrom_leaves (leaves : List Leaf) :
    TagsFrom (leaves.flatMap Leaf.tokens) (leaves.map Leaf.tag) := by
  rw [List.map_eq_flatMap]
  exact TagsFrom.flatMap fun l _ => tagsFrom_leaf l

theorem tagsFrom_child (c : Child) : TagsFrom c.tokens c.tags := by
  cases c with
  | leaf l => exact tagsFrom_leaf l
  | group tag text leaves tail =>
      intro name hname
      simp only [Child.tokens, List.mem_cons, List.mem_append, openTag, closeTag, Token.tag.injEq,
        reduceCtorEq, List.not_mem_nil, or_false, false_or] at hname
      rcases hname with (hopen | hleaf) | hclose
      · exact ⟨tag, List.mem_cons_self, Or.inl hopen⟩
      · obtain ⟨tag', htag', heq⟩ := tagsFrom_leaves leaves name hleaf
        exact ⟨tag', List.mem_cons_of_mem _ htag', heq⟩
      · exact ⟨tag, List.mem_cons_self, Or.inr hclose⟩

section
variable {tag tag' : String}

/-- The name of an opening tag is not the one of a closing tag. -/
theorem eq_of_openTag (hslash : '/' ∉ tag.toList)
    (h : tag.toList = tag'.toList ∨ tag.toList = '/' :: tag'.toList) : tag = tag' := by
  rcases h with heq | heq
  · exact String.toList_inj.mp heq
  · rw [heq] at hslash
    exact absurd List.mem_cons_self hslash

/-- The name of a closing tag is not the one of an opening tag. -/
theorem eq_of_closeTag (hslash : '/' ∉ tag'.toList)
    (h : '/' :: tag.toList = tag'.toList ∨ '/' :: tag.toList = '/' :: tag'.toList) : tag = tag' := by
  rcases h with heq | heq
  · rw [← heq] at hslash
    exact absurd List.mem_cons_self hslash
  · exact String.toList_inj.mp (List.cons.inj heq).2

end

/-! ### Searching an object -/

/-- The data of an element whose tag does not stand in front of it. -/
theorem cut_of_tagsFrom {o : ObjectElement} (ho : o.VocObb) {pre p : List Token}
    {tags : List String} {tag v : String}
    (htok : o.tokens = pre ++ openTag tag :: .data v.toList :: closeTag tag :: p)
    (hpre : TagsFrom pre tags) (hsub : ∀ t ∈ tags, t ∈ o.tags) (htag : tag ∈ o.tags)
    (hnot : tag ∉ tags) :
    Text.cut (Text.ofTokens o.tokens) tag.toList (tag.toList.length + 2) = v.toList := by
  have hplain := ho.plain
  rw [htok] at hplain ⊢
  have hopen : (openTag tag).Plain := hplain _ (by simp)
  have hv : (Token.data v.toList).Plain := hplain _ (by simp)
  refine Text.cut_element (fun tok h => hplain tok (List.mem_append_left _ h)) hopen.2 hopen.1 hv
    ?_ ?_
  · intro hmem
    obtain ⟨tag', htag', heq⟩ := hpre _ hmem
    exact hnot (eq_of_openTag (ho.slashFree tag htag) heq ▸ htag')
  · intro hmem
    obtain ⟨tag', htag', heq⟩ := hpre _ hmem
    exact hnot (eq_of_closeTag (ho.slashFree tag' (hsub tag' htag')) heq ▸ htag')

/-- The tags in front of a child are other ones. -/
theorem child_split {o : ObjectElement} (ho : o.VocObb) {c : Child} (hc : c ∈ o.children) :
    ∃ pre post tags, o.tokens = pre ++ c.tokens ++ post ∧ TagsFrom pre tags ∧
      (∀ t ∈ tags, t ∈ o.tags) ∧ ∀ t ∈ c.tags, t ∉ tags := by
  obtain ⟨xs, ys, hxs⟩ := List.append_of_mem hc
  have htags : o.tags = xs.flatMap Child.tags ++ (c.tags ++ ys.flatMap Child.tags) := by
    simp [ObjectElement.tags, hxs]
  have hnodup := ho.nodup
  rw [htags] at hnodup
  refine ⟨.data o.text.toList :: xs.flatMap Child.tokens,
    ys.flatMap Child.tokens ++ closeTag "object" :: o.after, xs.flatMap Child.tags, ?_, ?_, ?_, ?_⟩
  · simp [ObjectElement.tokens, hxs]
  · exact (tagsFrom_data _).append (TagsFrom.flatMap fun c _ => tagsFrom_child c)
  · intro t ht
    rw [htags]
    exact List.mem_append_left _ ht
  · intro t ht hmem
    exact (List.nodup_append.mp hnodup).2.2 t hmem t (List.mem_append_left _ ht) rfl

/-- An element of the object. -/
theorem cut_child {o : ObjectElement} (ho : o.VocObb) {l : Leaf} (hl : Child.leaf l ∈ o.children) :
    Text.cut (Text.ofTokens o.tokens) l.tag.toList (l.tag.toList.length + 2) = l.text.toList := by
  obtain ⟨pre, post, tags, htok, hpre, hsub, hnot⟩ := child_split ho hl
  have htag : l.tag ∈ o.tags := List.mem_flatMap.mpr ⟨_, hl, List.mem_cons_self⟩
  refine cut_of_tagsFrom ho (p := .data l.tail.toList :: post) ?_ hpre hsub htag
    (hnot _ List.mem_cons_self)
  rw [htok]
  simp [Child.tokens, Leaf.tokens]

/-- An element of a group. -/
theorem cut_groupLeaf {o : ObjectElement} (ho : o.VocObb) {c : Child} (hc : c ∈ o.children)
    {l : Leaf} (hl : l ∈ c.leaves) :
    Text.cut (Text.ofTokens o.tokens) l.tag.toList (l.tag.toList.length + 2) = l.text.toList := by
  obtain ⟨pre, post, tags, htok, hpre, hsub, hnot⟩ := child_split ho hc
  have hctags : ∀ t ∈ c.tags, t ∈ o.tags := fun t ht => List.mem_flatMap.mpr ⟨c, hc, ht⟩
  have hnodup : c.tags.Nodup :=
    ho.nodup.sublist (List.sublist_flatten_of_mem (List.mem_map_of_mem hc))
  cases c with
  | leaf _ => exact nomatch hl
  | group tag text leaves tail =>
      obtain ⟨ls, ls', hls⟩ := List.append_of_mem (show l ∈ leaves from hl)
      have hltag : l.tag ∈ Child.tags (.group tag text leaves tail) :=
        List.mem_cons_of_mem _ (List.mem_map_of_mem hl)
      have hinside : Child.tags (.group tag text leaves tail)
          = (tag :: ls.map Leaf.tag) ++ l.tag :: ls'.map Leaf.tag := by
        simp [Child.tags, Child.tag, Child.leaves, hls]
      -- In front of the element are the tag of the group and the elements before it.
      have hpre' : TagsFrom (pre ++ ([openTag tag] ++ ([.data text.toList] ++ ls.flatMap Leaf.tokens)))
          (tags ++ ([tag] ++ ([] ++ ls.map Leaf.tag))) :=
        hpre.append ((tagsFrom_openTag tag).append ((tagsFrom_data _).append (tagsFrom_leaves ls)))
      refine cut_of_tagsFrom ho (p := .data l.tail.toList :: ls'.flatMap Leaf.tokens
        ++ [closeTag tag, .data tail.toList] ++ post) ?_ hpre' ?_ (hctags _ hltag) ?_
      · rw [htok]
        simp [Child.tokens, hls, Leaf.tokens]
      · intro t ht
        rcases List.mem_append.mp ht with ht | ht
        · exact hsub t ht
        · refine hctags t ?_
          rw [hinside]
          exact List.mem_append_left _ ht
      · rw [List.mem_append, not_or]
        refine ⟨hnot _ hltag, fun hmem => ?_⟩
        rw [hinside] at hnodup
        exact (List.nodup_append.mp hnodup).2.2 _ hmem _ List.mem_cons_self rfl

/-- The search for a child by its tag. -/
theorem find_spec {o : ObjectElement} {tag : String} {c : Child} (h : o.find tag = some c) :
    c ∈ o.children ∧ c.tag = tag := by
  have htag := List.find?_some h
  exact ⟨List.mem_of_find?_eq_some h, of_decide_eq_true htag⟩

/-- The mark is cut out of the text of the object. -/
theorem cut_difficult {o : ObjectElement} (ho : o.VocObb) {v : String}
    (h : o.findtext "difficult" = some v) :
    Text.cut (Text.ofTokens o.tokens) "difficult".toList 11 = v.toList := by
  obtain ⟨c, hfind, rfl⟩ := Option.map_eq_some_iff.mp h
  obtain ⟨hc, htag⟩ := find_spec hfind
  obtain ⟨l, rfl⟩ := ho.difficult c hc (by rw [← htag]; exact List.mem_cons_self)
  have hcut := cut_child ho hc
  rw [show l.tag = "difficult" from htag] at hcut
  exact hcut

/-- A number is cut out of the text of the object. -/
theorem cut_number {o : ObjectElement} (ho : o.VocObb) {c : Child}
    (hfind : o.find "robndbox" = some c) {tag v : String} (h : c.findtext tag = some v) :
    Text.cut (Text.ofTokens o.tokens) tag.toList (tag.toList.length + 2) = v.toList := by
  obtain ⟨l, hl, rfl⟩ := Option.map_eq_some_iff.mp h
  have hdecide := List.find?_some hl
  have htag : l.tag = tag := of_decide_eq_true hdecide
  rw [← htag]
  exact cut_groupLeaf ho (find_spec hfind).1 (List.mem_of_find?_eq_some hl)

/-- A tag of the tokens is one of the elements, or closes the object or the root. -/
theorem tag_cases {o : ObjectElement} (ho : o.VocObb) {name : Text} (h : Token.tag name ∈ o.tokens) :
    (∃ tag ∈ o.tags, name = tag.toList ∨ name = '/' :: tag.toList) ∨
      name = "/object".toList ∨ name = "/annotation".toList := by
  have hchildren : TagsFrom (o.children.flatMap Child.tokens) o.tags :=
    TagsFrom.flatMap fun c _ => tagsFrom_child c
  simp only [ObjectElement.tokens, List.cons_append, List.mem_cons, List.mem_append] at h
  rcases h with hdata | hchild | hclose | hafter
  · cases hdata
  · exact Or.inl (hchildren _ hchild)
  · exact Or.inr (Or.inl (Token.tag.inj hclose))
  · exact Or.inr (Or.inr (ho.after _ hafter))

/-- An opening tag that no element has. -/
theorem openTag_not_mem {o : ObjectElement} (ho : o.VocObb) {tag : String} (htag : tag ∉ o.tags)
    (hslash : '/' ∉ tag.toList) : openTag tag ∉ o.tokens := by
  intro hmem
  rcases tag_cases ho hmem with ⟨tag', htag', heq⟩ | heq | heq
  · exact htag (eq_of_openTag hslash heq ▸ htag')
  · rw [heq] at hslash
    exact hslash (by decide)
  · rw [heq] at hslash
    exact hslash (by decide)

/-- The object has no mark when the search finds none. -/
theorem difficult_not_mem {o : ObjectElement} (ho : o.VocObb) (h : o.findtext "difficult" = none) :
    "difficult" ∉ o.tags := by
  intro hmem
  obtain ⟨c, hc, htag⟩ := List.mem_flatMap.mp hmem
  obtain ⟨l, rfl⟩ := ho.difficult c hc htag
  have hl : l.tag = "difficult" := (List.mem_singleton.mp htag).symm
  have hnone := List.find?_eq_none.mp (Option.map_eq_none_iff.mp h) _ hc
  exact hnone (decide_eq_true hl)

/-- Without a mark the converter cuts a long text out of the object. -/
theorem length_cut_difficult {o : ObjectElement} (ho : o.VocObb)
    (h : o.findtext "difficult" = none) :
    (Text.cut (Text.ofTokens o.tokens) "difficult".toList 11).length
      = (Text.ofTokens o.tokens).length - 11 := by
  have hnot := difficult_not_mem ho h
  refine Text.length_cut_missing ho.plain (by decide) (openTag_not_mem ho hnot (by decide)) ?_
    (by decide)
  intro hmem
  rcases tag_cases ho hmem with ⟨tag, htag, heq⟩ | heq | heq
  · exact hnot (eq_of_closeTag (ho.slashFree tag htag) heq ▸ htag)
  · exact absurd heq (by decide)
  · exact absurd heq (by decide)

/-- The pieces of the text are those of the objects. -/
theorem split_content {file : File} (hfile : file.VocObb) :
    (Text.split file.content (Text.tagText "object".toList)).drop 1
      = file.objects.map fun o => Text.ofTokens o.tokens := by
  have hplain : ∀ toks ∈ file.objects.map ObjectElement.tokens, ∀ tok ∈ toks, tok.Plain :=
    List.forall_mem_map.mpr fun o ho => (hfile.objects o ho).plain
  have hmem : ∀ toks ∈ file.objects.map ObjectElement.tokens,
      Token.tag "object".toList ∉ toks :=
    List.forall_mem_map.mpr fun o ho =>
      openTag_not_mem (hfile.objects o ho) (hfile.objects o ho).noObject (by decide)
  have hsplit := Text.split_tokens (by decide) hplain hmem hfile.plain hfile.noObject
  rw [List.flatMap_map] at hsplit
  rw [File.content, show (fun o : ObjectElement => openTag "object" :: o.tokens)
    = fun o => .tag "object".toList :: o.tokens from rfl, hsplit, List.drop_one, List.tail_cons,
    List.map_map]
  rfl

end W2Net.Proofs.AnnotationXml
