import Mathlib.Data.List.Nodup
import W2Net.Lib.TextFields
import W2Net.Utils.HypParse

/-!
# `W2Net.Proofs.Utils.HypParse`: what the settings file says

`hypParse_returns_iff` and `hypParse_lookup` are about every content of the file: `hyp_parse`
returns when every setting can be read, and a key has the value of its last setting.

`hypParse_written` is about a file that was written: comments, empty lines, indentation, white
space around a value and a remark behind it do not change the settings.
-/

set_option autoImplicit false

namespace W2Net.Proofs.HypParse

open W2Net.HypParse

section
variable {V : Type} {R : Readers V}

/-! ### The dictionary -/

/-- A lookup of a key behind an assignment. -/
theorem lookup_setItem (hyp : List (Text × V)) (key : Text) (value : V) (k : Text) :
    ((setItem hyp key value).find? fun item => item.1 = k).map Prod.snd
      = if key = k then some value else (hyp.find? fun item => item.1 = k).map Prod.snd := by
  have hkeep : ∀ item : Text × V, ((item.1, value) : Text × V).1 = item.1 := fun _ => rfl
  by_cases hk : key = k
  · subst hk
    have hfind := find?_updateFirst hkeep (rfl : (key, value).1 = key) hyp
    rw [if_pos rfl, setItem, hfind]
    rfl
  · have hfind := find?_updateFirst_of_ne hkeep (rfl : (key, value).1 = key) (Ne.symm hk) hyp
    rw [if_neg hk, setItem, hfind]

/-- An assignment keeps the keys, and appends its key when it is new. -/
theorem keys_setItem (hyp : List (Text × V)) (key : Text) (value : V) :
    (setItem hyp key value).map Prod.fst
      = if key ∈ hyp.map Prod.fst then hyp.map Prod.fst else hyp.map Prod.fst ++ [key] := by
  induction hyp with
  | nil => rfl
  | cons item hyp ih =>
      rw [setItem, updateFirst]
      by_cases hk : item.1 = key
      · rw [if_pos hk, if_pos (by rw [List.map_cons, hk]; exact List.mem_cons_self)]
        rfl
      · rw [if_neg hk, List.map_cons, List.map_cons]
        show item.1 :: (setItem hyp key value).map Prod.fst = _
        rw [ih]
        simp only [List.mem_cons, Ne.symm hk, false_or]
        split
        · rfl
        · rfl

theorem nodup_keys_setItem {hyp : List (Text × V)} (h : (hyp.map Prod.fst).Nodup) (key : Text)
    (value : V) : ((setItem hyp key value).map Prod.fst).Nodup := by
  rw [keys_setItem]
  split
  · exact h
  · rename_i hkey
    exact List.nodup_append.mpr ⟨h, List.nodup_singleton key, fun a ha b hb heq =>
      hkey (List.mem_singleton.mp hb ▸ heq ▸ ha)⟩

/-- A new key stands at the end. -/
theorem setItem_of_notMem {hyp : List (Text × V)} {key : Text} (h : key ∉ hyp.map Prod.fst)
    (value : V) : setItem hyp key value = hyp ++ [(key, value)] := by
  induction hyp with
  | nil => rfl
  | cons item hyp ih =>
      rw [List.map_cons, List.mem_cons, not_or] at h
      rw [setItem, updateFirst, if_neg (Ne.symm h.1)]
      exact congrArg (item :: ·) (ih h.2)

/-! ### Every file -/

/-- The loop with one more line. -/
theorem foldlM_concat (lines : List Text) (line : Text) (hyp : List (Text × V)) :
    (lines ++ [line]).foldlM (parseLine R) hyp
      = lines.foldlM (parseLine R) hyp >>= fun hyp => parseLine R hyp line := by
  rw [List.foldlM_append]
  refine bind_congr fun hyp => ?_
  rw [List.foldlM_cons]
  exact bind_pure _

/-- `hyp_parse` returns exactly when every setting can be read by `float` or by `eval`. -/
theorem hypParse_returns_iff (content : Text) :
    (∃ hyp, hypParse R content = .ok hyp) ↔
      ∀ line ∈ Text.readlines content, skips line = false → ∃ x, readValue R line = .ok x := by
  unfold hypParse
  induction Text.readlines content using List.reverseRecOn with
  | nil => exact iff_of_true ⟨[], rfl⟩ nofun
  | append_singleton lines line ih =>
      rw [List.forall_mem_append, List.forall_mem_singleton, ← ih, foldlM_concat]
      constructor
      · rintro ⟨hyp, h⟩
        obtain ⟨hyp', hyp'_eq, hline⟩ := bind_eq_ok h
        refine ⟨⟨hyp', hyp'_eq⟩, fun hskip => ?_⟩
        rw [parseLine, hskip, if_neg Bool.false_ne_true] at hline
        obtain ⟨x, hx, -⟩ := bind_eq_ok hline
        exact ⟨x, hx⟩
      · rintro ⟨⟨hyp, h⟩, hline⟩
        rw [h, ok_bind, parseLine]
        cases hskip : skips line with
        | true => exact ⟨hyp, rfl⟩
        | false =>
            obtain ⟨x, hx⟩ := hline hskip
            rw [hx]
            exact ⟨_, rfl⟩

/-- Each key of the file is once in the dictionary, with the value of its last setting, and there
are no other keys. -/
theorem hypParse_lookup {content : Text} {hyp : List (Text × V)} (h : hypParse R content = .ok hyp) :
    (hyp.map Prod.fst).Nodup ∧ ∀ k, (hyp.find? fun item => item.1 = k).map Prod.snd
      = ((Text.readlines content).reverse.find? fun line => !skips line && keyOf line = k).bind
          fun line => (readValue R line).toOption := by
  unfold hypParse at h
  generalize Text.readlines content = lines at h ⊢
  induction lines using List.reverseRecOn generalizing hyp with
  | nil =>
      cases h
      exact ⟨List.nodup_nil, fun _ => rfl⟩
  | append_singleton lines line ih =>
      rw [foldlM_concat] at h
      obtain ⟨before, hbefore, h⟩ := bind_eq_ok h
      obtain ⟨hnodup, hlookup⟩ := ih hbefore
      rw [parseLine] at h
      cases hskip : skips line with
      | true =>
          rw [hskip, if_pos rfl] at h
          cases h
          refine ⟨hnodup, fun k => ?_⟩
          rw [List.reverse_concat, List.find?_cons, hskip]
          exact hlookup k
      | false =>
          rw [hskip, if_neg Bool.false_ne_true] at h
          obtain ⟨x, hx, h⟩ := bind_eq_ok h
          cases h
          refine ⟨nodup_keys_setItem hnodup _ _, fun k => ?_⟩
          rw [lookup_setItem, List.reverse_concat, List.find?_cons, hskip]
          by_cases hk : keyOf line = k
          · simp [hk, hx, Except.toOption]
          · simp only [hk, if_false, decide_false, Bool.and_false]
            exact hlookup k

/-- The settings of every file: it is read when all its settings can be read, and a key has the
value of its last setting. -/
theorem hypParse_spec (R : Readers V) (content : Text) :
    ((∃ hyp, hypParse R content = .ok hyp) ↔
      ∀ line ∈ Text.readlines content, skips line = false → ∃ x, readValue R line = .ok x) ∧
    ∀ hyp, hypParse R content = .ok hyp → (hyp.map Prod.fst).Nodup ∧
      ∀ k, (hyp.find? fun item => item.1 = k).map Prod.snd
        = ((Text.readlines content).reverse.find? fun line => !skips line && keyOf line = k).bind
            fun line => (readValue R line).toOption :=
  ⟨hypParse_returns_iff content, fun _ h => hypParse_lookup h⟩

/-- Values that stay texts. -/
def echo : Readers Text := ⟨.ok, fun _ => .error .valueError⟩

/-- The second setting of a key counts. -/
theorem hypParse_spec_twice :
    ∃ hyp, hypParse echo "lr: 1\n# lr: 3\nlr: 2\n".toList = .ok hyp ∧
      (hyp.find? fun item => item.1 = "lr".toList).map Prod.snd = some "2".toList := by
  obtain ⟨hreturns, hlookup⟩ := hypParse_spec echo "lr: 1\n# lr: 3\nlr: 2\n".toList
  have hlines : Text.readlines "lr: 1\n# lr: 3\nlr: 2\n".toList
      = ["lr: 1".toList, "# lr: 3".toList, "lr: 2".toList] := by decide
  rw [hlines] at hreturns hlookup
  obtain ⟨hyp, h⟩ := hreturns.mpr (List.forall_mem_cons.mpr ⟨fun _ => ⟨"1".toList, rfl⟩,
    List.forall_mem_cons.mpr ⟨fun hskip => absurd hskip (by decide),
      List.forall_mem_singleton.mpr fun _ => ⟨"2".toList, rfl⟩⟩⟩)
  exact ⟨hyp, h, ((hlookup hyp h).2 _).trans rfl⟩

/-! ### A file that was written -/

/-- A line of the file: a setting with what stands around its key and its value, or a line that is
passed over. -/
inductive Item where
  | setting (indent key pad value tail : Text)
  | skipped (line : Text)

def Item.line : Item → Text
  | .setting indent key pad value tail => indent ++ (key ++ ':' :: (pad ++ (value ++ tail)))
  | .skipped line => line

/-- The setting of a line. -/
def Item.setting? : Item → Option (Text × Text)
  | .setting _ key _ value _ => some (key, value)
  | .skipped _ => none

/-- The key starts with a character that is not white space and has no colon. The value is a word
without a colon, and a remark stands behind a space. A line without indentation does not start
with `#`. -/
def Item.Plain : Item → Prop
  | .setting indent key pad value tail =>
      (∀ c ∈ indent, Text.isSpace c = true) ∧ (∃ c cs, key = c :: cs ∧ Text.isSpace c = false ∧
        (indent = [] → c ≠ '#')) ∧ ':' ∉ key ∧ (∀ c ∈ pad, Text.isSpace c = true) ∧
      Text.Word value ∧ ':' ∉ value ∧ (tail = [] ∨ ∃ remark, tail = ' ' :: remark)
  | .skipped line => (∃ remark, line = '#' :: remark) ∨ ∀ c ∈ line, Text.isSpace c = true

/-- What `float` and then `eval` make of the text of a value. -/
def readText (R : Readers V) (text : Text) : PyM V :=
  match R.float text with
  | .ok x => .ok x
  | .error _ => R.eval text

theorem skips_skipped {line : Text} (h : (Item.skipped line).Plain) : skips line = true := by
  obtain ⟨remark, rfl⟩ | hspace := h
  · simp [skips]
  · have hstrip : Text.strip line = [] := by
      rw [Text.strip, List.dropWhile_eq_nil_iff.mpr hspace]
      rfl
    simp [skips, hstrip]

section
variable {indent key pad value tail : Text}
  (h : (Item.setting indent key pad value tail).Plain)
include h

/-- What `strip` leaves of a setting. -/
theorem strip_setting : Text.strip (Item.setting indent key pad value tail).line
    = key ++ ':' :: (pad ++ (value ++ Text.rstrip tail)) := by
  obtain ⟨hindent, ⟨c, cs, rfl, hc, -⟩, -, -, hword, -, -⟩ := h
  have hhead : ∀ d ∈ ((c :: cs) ++ ':' :: (pad ++ (value ++ tail))).head?,
      Text.isSpace d = false := by
    intro d hd
    cases hd
    exact hc
  have hrstrip := Text.rstrip_word ((c :: cs) ++ ':' :: pad) hword tail
  rw [Item.line, Text.strip_padded hindent hhead]
  simpa using hrstrip

theorem skips_setting : skips (Item.setting indent key pad value tail).line = false := by
  have hstrip := strip_setting h
  obtain ⟨hindent, ⟨c, cs, rfl, hc, hhash⟩, -⟩ := h
  rw [skips, hstrip, Bool.or_eq_false_iff]
  constructor
  · cases indent with
    | nil => simpa [Item.line, List.isPrefixOf] using Ne.symm (hhash rfl)
    | cons d ds =>
        have hd : '#' ≠ d := by
          rintro rfl
          exact absurd (hindent '#' List.mem_cons_self) (by decide)
        simpa [Item.line, List.isPrefixOf] using hd
  · simp

theorem keyOf_setting : keyOf (Item.setting indent key pad value tail).line = key := by
  rw [keyOf, strip_setting h, Text.split_char h.2.2.1]
  rfl

/-- What stands behind the value starts with a space. -/
theorem head_rstrip_takeWhile (p : Char → Bool) :
    ∀ c ∈ ((Text.rstrip tail).takeWhile p).head?, c = ' ' := by
  have hprefix := (List.takeWhile_prefix p).trans (Text.rstrip_prefix tail)
  obtain ⟨-, -, -, -, -, -, rfl | ⟨remark, rfl⟩⟩ := h
  · rw [List.prefix_nil.mp hprefix]
    nofun
  · intro c hc
    obtain ⟨cs, hcs⟩ := List.head?_eq_some_iff.mp hc
    rw [hcs] at hprefix
    exact (List.cons_prefix_cons.mp hprefix).1

/-- The second field ends at the next colon, which can stand in the remark only. -/
theorem secondField_setting :
    (Text.split (Text.strip (Item.setting indent key pad value tail).line) [':'])[1]?
      = some (pad ++ (value ++ (Text.rstrip tail).takeWhile fun d => d != ':')) := by
  rw [strip_setting h]
  obtain ⟨-, -, hkey, hpad, hword, hcolon, -⟩ := h
  have hplain : ∀ d ∈ pad ++ value, (d != ':') = true := by
    intro d hd
    rw [bne_iff_ne]
    rintro rfl
    rcases List.mem_append.mp hd with hin | hin
    · exact absurd (hpad ':' hin) (by decide)
    · exact hcolon hin
  have hfirst : (Text.split (pad ++ (value ++ Text.rstrip tail)) [':']).headD []
      = pad ++ (value ++ (Text.rstrip tail).takeWhile fun d => d != ':') := by
    rw [Text.head_split_char, ← List.append_assoc, List.takeWhile_append_of_pos hplain]
    exact List.append_assoc _ _ _
  rw [Text.split_char hkey, List.getElem?_cons_succ]
  cases hsplit : Text.split (pad ++ (value ++ Text.rstrip tail)) [':'] with
  | nil =>
      rw [hsplit] at hfirst
      have hnil := (List.append_eq_nil_iff.mp hfirst.symm).2
      exact absurd (List.append_eq_nil_iff.mp hnil).1 hword.1
  | cons piece rest =>
      rw [hsplit] at hfirst
      exact congrArg some hfirst

theorem valueText_setting :
    valueText (Item.setting indent key pad value tail).line = .ok value := by
  have htail := head_rstrip_takeWhile h fun d => d != ':'
  rw [valueText, secondField_setting h]
  obtain ⟨-, -, -, hpad, hword, -⟩ := h
  exact congrArg Except.ok (Text.head_split_strip hpad hword htail)

/-- A setting assigns its value to its key. -/
theorem parseLine_setting (hyp : List (Text × V)) :
    parseLine R hyp (Item.setting indent key pad value tail).line
      = readText R value >>= fun x => .ok (setItem hyp key x) := by
  rw [parseLine, skips_setting h, if_neg Bool.false_ne_true, keyOf_setting h, readValue,
    valueText_setting h]
  rfl

end

/-- The settings of a file, in order. -/
def settings (items : List Item) : List (Text × Text) := items.filterMap Item.setting?

/-- The loop appends the settings. Induction on the lines: a key of the rest is not yet in the
dictionary. -/
theorem foldlM_written {items : List Item} (hplain : ∀ i ∈ items, i.Plain)
    (hkeys : ((settings items).map Prod.fst).Nodup) (hyp : List (Text × V))
    (hnew : ∀ k ∈ (settings items).map Prod.fst, k ∉ hyp.map Prod.fst) :
    (items.map Item.line).foldlM (parseLine R) hyp
      = ((settings items).mapM fun s => (readText R s.2).map fun x => (s.1, x)).map (hyp ++ ·) := by
  induction items generalizing hyp with
  | nil => exact congrArg Except.ok (List.append_nil hyp).symm
  | cons item items ih =>
      rw [List.forall_mem_cons] at hplain
      rw [List.map_cons, List.foldlM_cons]
      cases item with
      | skipped line =>
          show parseLine R hyp line >>= _ = _
          rw [parseLine, skips_skipped hplain.1, if_pos rfl, ok_bind]
          exact ih hplain.2 hkeys hyp hnew
      | setting indent key pad value tail =>
          have hsettings : settings (.setting indent key pad value tail :: items)
              = (key, value) :: settings items := rfl
          rw [hsettings, List.map_cons, List.nodup_cons] at hkeys
          rw [hsettings, List.map_cons, List.forall_mem_cons] at hnew
          rw [parseLine_setting hplain.1, hsettings, List.mapM_cons]
          show (readText R value >>= _) >>= _ = _
          cases readText R value with
          | error e => rfl
          | ok x =>
              show (items.map Item.line).foldlM (parseLine R) (setItem hyp key x) = _
              rw [setItem_of_notMem hnew.1, ih hplain.2 hkeys.2]
              · show _ = Except.map _ (((settings items).mapM _) >>= _)
                cases (settings items).mapM fun s => (readText R s.2).map fun x => (s.1, x) with
                | error e => rfl
                | ok rest => exact congrArg Except.ok (List.append_assoc hyp [(key, x)] rest)
              · intro k hk hmem
                rw [List.map_append, List.mem_append] at hmem
                rcases hmem with hmem | hmem
                · exact hnew.2 k hk hmem
                · rw [List.mem_singleton.mp hmem] at hk
                  exact hkeys.1 hk

/-- `hyp_parse` reads the settings that were written, in order, whatever stands around them. -/
theorem hypParse_written {items : List Item} (hplain : ∀ i ∈ items, i.Plain)
    (hline : ∀ i ∈ items, '\n' ∉ i.line ∧ '\r' ∉ i.line)
    (hkeys : ((settings items).map Prod.fst).Nodup) :
    hypParse R (Text.unlines (items.map Item.line))
      = (settings items).mapM fun s => (readText R s.2).map fun x => (s.1, x) := by
  have hlines : Text.readlines (Text.unlines (items.map Item.line)) = items.map Item.line :=
    Text.readlines_unlines
      (fun _ hmem => by obtain ⟨i, hi, rfl⟩ := List.mem_map.mp hmem; exact (hline i hi).1)
      (fun _ hmem => by obtain ⟨i, hi, rfl⟩ := List.mem_map.mp hmem; exact (hline i hi).2)
  rw [hypParse, hlines, foldlM_written hplain hkeys [] fun _ _ => List.not_mem_nil]
  cases (settings items).mapM fun s => (readText R s.2).map fun x => (s.1, x) with
  | error e => rfl
  | ok rest => rfl

end

/-- A comment, an empty line, and settings in the forms of `hyp.py`. -/
def sampleItems : List Item :=
  [.skipped "# lr".toList, .setting [] "lr0".toList [' '] "0.0001".toList [],
    .setting [] "warm_epoch".toList [] "8".toList [], .skipped [],
    .setting [' '] "seg_pos_weight".toList [' '] "12.0".toList "  # BCE: 8".toList]

theorem hypParse_written_sample :
    hypParse echo (Text.unlines (sampleItems.map Item.line))
      = .ok [("lr0".toList, "0.0001".toList), ("warm_epoch".toList, "8".toList),
        ("seg_pos_weight".toList, "12.0".toList)] := by
  have hplain : ∀ i ∈ sampleItems, i.Plain := by
    have hspace : ∀ c ∈ [' '], Text.isSpace c = true := List.forall_mem_singleton.mpr rfl
    refine List.forall_mem_cons.mpr ⟨.inl ⟨_, rfl⟩, List.forall_mem_cons.mpr ⟨?_,
      List.forall_mem_cons.mpr ⟨?_, List.forall_mem_cons.mpr ⟨.inr nofun,
        List.forall_mem_singleton.mpr ?_⟩⟩⟩⟩
    · exact ⟨nofun, ⟨'l', _, rfl, rfl, fun _ => by decide⟩, by decide, hspace,
        Text.word_of_all (by decide) rfl, by decide, .inl rfl⟩
    · exact ⟨nofun, ⟨'w', _, rfl, rfl, fun _ => by decide⟩, by decide, nofun,
        Text.word_of_all (by decide) rfl, by decide, .inl rfl⟩
    · exact ⟨hspace, ⟨'s', _, rfl, rfl, nofun⟩, by decide, hspace, Text.word_of_all (by decide) rfl,
        by decide, .inr ⟨_, rfl⟩⟩
  have hline : ∀ i ∈ sampleItems, '\n' ∉ i.line ∧ '\r' ∉ i.line := by decide
  have hkeys : ((settings sampleItems).map Prod.fst).Nodup := by decide
  exact (hypParse_written hplain hline hkeys).trans rfl

end W2Net.Proofs.HypParse
