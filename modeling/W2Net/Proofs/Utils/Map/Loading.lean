import W2Net.Utils.Map

/-!
# `W2Net.Proofs.Utils.Map.Loading`: the ground truth that `eval_mAP` loads

`markUsed store taken` is the store with the flags `used` of exactly the places
`taken`. A place is a file id and an index in its list of objects.

`Covered` is what loading guarantees, for any files, also when two of them have
the same id and the second dump replaces the first: every list of different
places of counted objects is at most as long as the counter of the class.
`covered_loadFilesBy` proves it file by file, for any choice of the ids.
-/

set_option autoImplicit false

namespace W2Net.Proofs.Map

open W2Net.Map

section
variable {B K : Type}

/-! ### The flags -/

/-- The object at a place: a file id and an index. -/
def objectAt (store : Store B) (p : String × ℕ) : Option (GtObject B) :=
  (store p.1).bind fun objs => objs[p.2]?

/-- An object with a new flag. -/
def withUsed (u : Bool) (obj : GtObject B) : GtObject B := { obj with used := u }

/-- The store in which the flags of the places `taken` are set, and no others. -/
def markUsed (store : Store B) (taken : List (String × ℕ)) : Store B := fun id =>
  (store id).map fun objs => objs.mapIdx fun i obj => withUsed ((id, i) ∈ taken) obj

theorem objectAt_markUsed (store : Store B) (taken : List (String × ℕ)) (p : String × ℕ) :
    objectAt (markUsed store taken) p =
      (objectAt store p).map (withUsed (decide (p ∈ taken))) := by
  unfold objectAt markUsed
  cases store p.1 with
  | none => rfl
  | some objs => simp [List.getElem?_mapIdx]

/-- Setting the flag of one more object. -/
theorem markUsed_cons {store : Store B} (taken : List (String × ℕ)) {id : String} {i : ℕ}
    {objs : List (GtObject B)} {obj : GtObject B} (hobjs : store id = some objs)
    (hobj : objs[i]? = some obj) :
    Function.update (markUsed store taken) id (some
      ((objs.mapIdx fun k o => withUsed ((id, k) ∈ taken) o).set i (withUsed true obj))) =
      markUsed store ((id, i) :: taken) := by
  funext id'
  by_cases hid : id' = id
  · subst hid
    rw [Function.update_self, markUsed, hobjs, Option.map_some, Option.some.injEq]
    refine List.ext_getElem? fun k => ?_
    rw [List.getElem?_set, List.getElem?_mapIdx, List.getElem?_mapIdx, List.length_mapIdx]
    by_cases hk : i = k
    · subst hk
      obtain ⟨hlt, heq⟩ := List.getElem?_eq_some_iff.mp hobj
      simp [hlt, heq]
    · simp [hk, Ne.symm hk]
  · -- The other files are not written.
    rw [Function.update_of_ne hid, markUsed, markUsed]
    cases store id' with
    | none => rfl
    | some objs' => simp [hid]

/-! ### Loading -/

/-- The object that one line becomes. -/
def lineObject (line : GtLine B) : GtObject B :=
  ⟨line.className, line.bbox, false, line.difficult⟩

/-- The objects that count for a class. -/
def isCounted (className : String) (obj : GtObject B) : Bool :=
  !obj.difficult && decide (obj.className = className)

/-- The objects of a file are its lines, and the counters move by the objects
that count. -/
theorem foldl_scanLine (className : String) (lines : List (GtLine B)) (st : FileScan B) :
    (lines.foldl scanLine st).boundingBoxes = st.boundingBoxes ++ lines.map lineObject ∧
      (lines.foldl scanLine st).gtCounterPerClass.count className =
        st.gtCounterPerClass.count className +
          (lines.map lineObject).countP (isCounted className) ∧
      (st.gtCounterPerClass.Positive →
        (lines.foldl scanLine st).gtCounterPerClass.Positive) := by
  induction lines generalizing st with
  | nil => exact ⟨(List.append_nil _).symm, rfl, id⟩
  | cons line lines ih =>
      obtain ⟨hboxes, hcount, hpos⟩ := ih (scanLine st line)
      rw [List.foldl_cons, hboxes, hcount, List.map_cons, List.countP_cons]
      cases hd : line.difficult with
      | true =>
          -- The counter stays.
          have hstep : scanLine st line = { st with
              boundingBoxes := st.boundingBoxes ++ [lineObject line] } := by
            simp [scanLine, lineObject, hd]
          rw [hstep] at hpos ⊢
          refine ⟨by simp, ?_, hpos⟩
          simp [isCounted, lineObject, hd]
      | false =>
          have hb : (scanLine st line).boundingBoxes = st.boundingBoxes ++ [lineObject line] := by
            simp [scanLine, lineObject, hd]
          have hc : (scanLine st line).gtCounterPerClass =
              st.gtCounterPerClass.incr line.className := by
            simp [scanLine, hd]
          rw [hc] at hpos
          refine ⟨by simp [hb], ?_, fun h => hpos (h.incr _)⟩
          rw [hc, Counter.count_incr]
          simp only [isCounted, lineObject, hd]
          by_cases hcls : line.className = className
          · simp [hcls]
            omega
          · simp [hcls]

/-- What loading guarantees: no flag is set, the counts are positive, and the
counter of a class covers every list of different places of counted objects. -/
structure Covered (gt : GroundTruth B) : Prop where
  unused : ∀ id objs, gt.store id = some objs → ∀ obj ∈ objs, obj.used = false
  positive : gt.gtCounterPerClass.Positive
  cover : ∀ (className : String) (places : List (String × ℕ)), places.Nodup →
    (∀ p ∈ places, ∃ obj, objectAt gt.store p = some obj ∧ isCounted className obj = true) →
    places.length ≤ gt.gtCounterPerClass.count className

section
variable (ident : String → String)

/-- One more file is stored as the list of its objects. -/
theorem loadFileBy_store (gt : GroundTruth B) (file : TxtFile (GtLine B)) :
    (loadFileBy ident gt file).store =
      Function.update gt.store (ident file.stem) (some (file.lines.map lineObject)) := by
  show Function.update gt.store (ident file.stem)
    (some (file.lines.foldl scanLine _).boundingBoxes) = _
  rw [(foldl_scanLine "" file.lines _).1, List.nil_append]

/-- Different places in one file are different positions in its list of objects. -/
theorem length_places_le {store : Store B} {id : String} {objs : List (GtObject B)}
    {className : String} {places : List (String × ℕ)} (hnodup : places.Nodup)
    (hid : ∀ p ∈ places, p.1 = id) (hobjs : store id = some objs)
    (hplaces : ∀ p ∈ places, ∃ obj, objectAt store p = some obj ∧ isCounted className obj = true) :
    places.length ≤ objs.countP (isCounted className) := by
  have hinj : (places.map Prod.snd).Nodup :=
    hnodup.map_on fun p hp q hq hpq => Prod.ext ((hid p hp).trans (hid q hq).symm) hpq
  rw [← List.length_map Prod.snd]
  refine length_le_countP hinj fun i hi => ?_
  obtain ⟨p, hp, rfl⟩ := List.mem_map.mp hi
  obtain ⟨obj, hobj, hcounted⟩ := hplaces p hp
  refine ⟨obj, ?_, hcounted⟩
  rwa [objectAt, hid p hp, hobjs] at hobj

/-- One more file. Its own places are positions in its list of objects, and the
other places were covered before. -/
theorem Covered.loadFileBy {gt : GroundTruth B} (h : Covered gt) (file : TxtFile (GtLine B)) :
    Covered (loadFileBy ident gt file) := by
  have hscan := fun className => foldl_scanLine className file.lines
    ⟨[], gt.gtCounterPerClass, gt.counterImagesPerClass, []⟩
  have hstore := loadFileBy_store ident gt file
  refine ⟨?_, (hscan "").2.2 h.positive, fun className places hnodup hplaces => ?_⟩
  · intro id objs hobjs obj hmem
    rw [hstore] at hobjs
    by_cases hid : id = ident file.stem
    · subst hid
      rw [Function.update_self, Option.some.injEq] at hobjs
      subst hobjs
      obtain ⟨line, -, rfl⟩ := List.mem_map.mp hmem
      rfl
    · rw [Function.update_of_ne hid] at hobjs
      exact h.unused id objs hobjs obj hmem
  · show places.length ≤ Counter.count className
      (file.lines.foldl scanLine _).gtCounterPerClass
    rw [(hscan className).2.1]
    -- The places in this file, and the places in the others.
    let own := fun p : String × ℕ => decide (p.1 = ident file.stem)
    rw [List.length_eq_length_filter_add own, Nat.add_comm]
    refine Nat.add_le_add (h.cover className _ (hnodup.filter _) fun p hp => ?_) ?_
    · obtain ⟨hmem, hother⟩ := List.mem_filter.mp hp
      obtain ⟨obj, hobj, hcounted⟩ := hplaces p hmem
      have hne : p.1 ≠ ident file.stem := by simpa [own] using hother
      refine ⟨obj, ?_, hcounted⟩
      rwa [hstore, objectAt, Function.update_of_ne hne] at hobj
    · have hid : ∀ p ∈ places.filter own, p.1 = ident file.stem := by
        intro p hp
        simpa [own] using (List.mem_filter.mp hp).2
      refine length_places_le (hnodup.filter _) hid ?_
        fun p hp => hplaces p (List.mem_filter.mp hp).1
      rw [hstore, Function.update_self]

theorem covered_loadFilesBy (files : List (TxtFile (GtLine B))) :
    Covered (loadFilesBy ident files) := by
  have hempty : Covered (⟨fun _ => none, [], []⟩ : GroundTruth B) := by
    refine ⟨nofun, nofun, fun className places _ hplaces => ?_⟩
    cases places with
    | nil => exact Nat.le_refl 0
    | cons p places =>
        obtain ⟨obj, hobj, -⟩ := hplaces p List.mem_cons_self
        cases hobj
  exact List.foldlRecOn files (loadFileBy ident) hempty fun gt h file _ => h.loadFileBy ident file

/-- Every ground-truth file has its objects in the store. -/
theorem loadFilesBy_store_ne_none (files : List (TxtFile (GtLine B))) :
    ∀ f ∈ files, (loadFilesBy ident files).store (ident f.stem) ≠ none := by
  -- A dump stays, or is replaced by another one.
  have hkeep : ∀ (gt : GroundTruth B) (file : TxtFile (GtLine B)) (id : String),
      gt.store id ≠ none ∨ id = ident file.stem → (loadFileBy ident gt file).store id ≠ none := by
    intro gt file id h
    show Function.update gt.store (ident file.stem) (some (file.lines.foldl scanLine
      _).boundingBoxes) id ≠ none
    by_cases hid : id = ident file.stem
    · rw [hid, Function.update_self]
      exact Option.some_ne_none _
    · rw [Function.update_of_ne hid]
      exact h.resolve_right hid
  have hrun : ∀ (files : List (TxtFile (GtLine B))) (gt : GroundTruth B) (id : String),
      (gt.store id ≠ none ∨ ∃ f ∈ files, id = ident f.stem) →
        (files.foldl (loadFileBy ident) gt).store id ≠ none := by
    intro files
    induction files with
    | nil =>
        intro gt id h
        exact h.elim (fun h => h) nofun
    | cons file files ih =>
        intro gt id h
        refine ih (loadFileBy ident gt file) id ?_
        obtain h | ⟨f, hf, hid⟩ := h
        · exact Or.inl (hkeep gt file id (Or.inl h))
        · rcases List.mem_cons.mp hf with rfl | hf
          · exact Or.inl (hkeep gt f id (Or.inr hid))
          · exact Or.inr ⟨f, hf, hid⟩
  exact fun f hf => hrun files _ _ (Or.inr ⟨f, hf, rfl⟩)

end

theorem covered_loadFiles (files : List (TxtFile (GtLine B))) : Covered (loadFiles files) :=
  covered_loadFilesBy fileId files

/-- Without flags, no place is taken. -/
theorem Covered.markUsed_nil {gt : GroundTruth B} (h : Covered gt) :
    markUsed gt.store [] = gt.store := by
  funext id
  unfold markUsed
  cases hobjs : gt.store id with
  | none => rfl
  | some objs =>
      rw [Option.map_some, Option.some.injEq]
      refine List.ext_getElem? fun i => ?_
      rw [List.getElem?_mapIdx]
      cases hobj : objs[i]? with
      | none => rfl
      | some obj =>
          have hu := h.unused id objs hobjs obj (List.mem_of_getElem? hobj)
          rw [Option.map_some, Option.some.injEq]
          show { obj with used := false } = obj
          rw [← hu]

end

/-! ### File ids -/

/-- What is in front of the first `.txt` is a prefix. -/
theorem uptoTxt_prefix (cs : List Char) : uptoTxt cs <+: cs := by
  fun_induction uptoTxt cs with
  | case1 rest => exact List.nil_prefix
  | case2 c cs _ ih => exact List.cons_prefix_cons.mpr ⟨rfl, ih⟩
  | case3 => exact List.nil_prefix

/-- There is no `.txt` in front of the first `.txt`. -/
theorem uptoTxt_idem (cs : List Char) : uptoTxt (uptoTxt cs) = uptoTxt cs := by
  fun_induction uptoTxt cs with
  | case1 rest => rfl
  | case2 c cs hno ih =>
      rw [uptoTxt, ih]
      -- A `.txt` at the front of the prefix would be one at the front of the list.
      intro rest hc h
      obtain ⟨tail, htail⟩ := uptoTxt_prefix cs
      rw [h] at htail
      exact hno (rest ++ tail) hc htail.symm
  | case3 => rfl

/-- The id of a file that is named by an id is the id. -/
theorem fileId_idem (stem : String) : fileId (fileId stem) = fileId stem := by
  unfold fileId
  rw [String.toList_ofList, uptoTxt_idem]

end W2Net.Proofs.Map
