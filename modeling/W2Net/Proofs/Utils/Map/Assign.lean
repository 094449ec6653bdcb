import W2Net.Proofs.Utils.Map.Loading

/-!
# `W2Net.Proofs.Utils.Map.Assign`: the assignment loop is first claim

The loop of `eval_mAP` reads and writes the flags `used` in the `.json` files.
`assignAll_markUsed` removes the flags from the picture: what a detection asks
for (`request`) depends on the loaded objects alone, and the loop is `settleAll`
on these requests. The flags are the taken places.

`bestMatch_withUsed` is the reason: the search for the best match reads the
class and the corners of an object, never its flag.
-/

set_option autoImplicit false

namespace W2Net.Proofs.Map

open W2Net.Map

section
variable {B K : Type} [Field K] [LinearOrder K]
variable (overlap : B → B → PyM (K × K)) (thres : K) (className : String)

/-! ### The best match -/

/-- `skewiou` returns on valid hulls. -/
theorem exists_skewiou {sh : Shapely B K} {box1 box2 : B} (h1 : sh.isValid box1 = true)
    (h2 : sh.isValid box2 = true) : ∃ v, skewiou sh box1 box2 = .ok v := by
  unfold skewiou
  rw [h1, h2]
  simp only [Bool.not_true, Bool.or_self, Bool.false_eq_true, if_false]
  split
  · exact ⟨_, rfl⟩
  · split
    · exact ⟨_, rfl⟩
    · exact ⟨_, rfl⟩

variable {overlap className} in
/-- The search keeps its candidate or ends at an object of the class. -/
theorem bestMatchFrom_cases {bb : B} {objs : List (GtObject B)} {i : ℕ}
    {best r : K × Option (ℕ × GtObject B)}
    (h : bestMatchFrom overlap className bb objs i best = .ok r) :
    r = best ∨ ∃ k obj, objs[k]? = some obj ∧ obj.className = className ∧
      r.2 = some (i + k, obj) := by
  induction objs generalizing i best with
  | nil =>
      cases h
      exact Or.inl rfl
  | cons obj objs ih =>
      -- A result from the rest of the list has its index moved by one.
      have hshift : ∀ best', bestMatchFrom overlap className bb objs (i + 1) best' = .ok r →
          r = best' ∨ ∃ k o, (obj :: objs)[k]? = some o ∧ o.className = className ∧
            r.2 = some (i + k, o) := by
        intro best' h'
        obtain heq | ⟨k, o, hk, hcls, hr⟩ := ih h'
        · exact Or.inl heq
        · exact Or.inr ⟨k + 1, o, hk, hcls, by rw [hr, Nat.add_right_comm, Nat.add_assoc]⟩
      rw [bestMatchFrom] at h
      split at h
      · rename_i hcls
        obtain ⟨ov, -, h⟩ := bind_eq_ok h
        split at h
        · obtain rfl | hr := hshift _ h
          · exact Or.inr ⟨0, obj, rfl, hcls, rfl⟩
          · exact Or.inr hr
        · exact hshift _ h
      · exact hshift _ h

variable {overlap className} in
/-- The best match is an object of the class, at its index. -/
theorem bestMatch_some {bb : B} {objs : List (GtObject B)} {ov : K} {i : ℕ} {obj : GtObject B}
    (h : bestMatch overlap className bb objs = .ok (ov, some (i, obj))) :
    objs[i]? = some obj ∧ obj.className = className := by
  obtain heq | ⟨k, o, hk, hcls, hr⟩ := bestMatchFrom_cases h
  · cases heq
  · rw [Nat.zero_add] at hr
    cases hr
    exact ⟨hk, hcls⟩

variable {overlap className} in
/-- Without a match, `ovmax` is still -1. -/
theorem bestMatch_none {bb : B} {objs : List (GtObject B)} {ov : K}
    (h : bestMatch overlap className bb objs = .ok (ov, none)) : ov = -1 := by
  obtain heq | ⟨k, o, -, -, hr⟩ := bestMatchFrom_cases h
  · cases heq
    rfl
  · cases hr

/-- The search does not read the flags. -/
theorem bestMatchFrom_withUsed (u : ℕ → Bool) (bb : B) (objs : List (GtObject B)) (i : ℕ)
    (best : K × Option (ℕ × GtObject B)) :
    bestMatchFrom overlap className bb (objs.mapIdx fun k obj => withUsed (u (i + k)) obj) i
        (best.1, best.2.map fun p => (p.1, withUsed (u p.1) p.2)) =
      (bestMatchFrom overlap className bb objs i best).map fun r =>
        (r.1, r.2.map fun p => (p.1, withUsed (u p.1) p.2)) := by
  induction objs generalizing i best with
  | nil => rfl
  | cons obj objs ih =>
      rw [List.mapIdx_cons]
      -- The marks of the rest are counted from the next place.
      have hrest : (objs.mapIdx fun k obj => withUsed (u (i + (k + 1))) obj) =
          objs.mapIdx fun k obj => withUsed (u (i + 1 + k)) obj := by
        simp only [Nat.add_comm 1, Nat.add_assoc]
      rw [hrest, bestMatchFrom, bestMatchFrom]
      show (if obj.className = className then _ else _) = _
      split
      · show (overlap obj.bbox bb >>= fun _ => _) = _
        cases overlap obj.bbox bb with
        | error e => rfl
        | ok ov =>
            show (if ov.2 ≠ 0 ∧ best.1 < ov.1 then _ else _) =
              Except.map _ (if ov.2 ≠ 0 ∧ best.1 < ov.1 then _ else _)
            split
            · exact ih (i + 1) (ov.1, some (i, obj))
            · exact ih (i + 1) best
      · exact ih (i + 1) best

/-- The best match among objects with other flags. -/
theorem bestMatch_withUsed (u : ℕ → Bool) (bb : B) (objs : List (GtObject B)) :
    bestMatch overlap className bb (objs.mapIdx fun k obj => withUsed (u k) obj) =
      (bestMatch overlap className bb objs).map fun r =>
        (r.1, r.2.map fun p => (p.1, withUsed (u p.1) p.2)) := by
  have h := bestMatchFrom_withUsed overlap className u bb objs 0 (-1, none)
  simp only [Nat.zero_add] at h
  exact h

/-! ### Requests -/

/-- What a detection asks for: nothing when the minimum overlap is not reached,
to be left out when its best match is difficult, and else its best match. -/
def request (store : Store B) (detection : Detection B K) : PyM (Request (String × ℕ)) :=
  match store detection.fileId with
  | none => .error .fileNotFoundError
  | some objs => do
      let best ← bestMatch overlap className detection.bbox objs
      if thres ≤ best.1 then
        match best.2 with
        | none => .error .typeError
        | some (i, obj) =>
            if obj.difficult then .ok .skip else .ok (.claim (detection.fileId, i))
      else .ok .miss

/-- The best match of a detection reaches the minimum overlap and is the object
`obj` at the place `p`. -/
def IsMatch (store : Store B) (detection : Detection B K) (p : String × ℕ) (obj : GtObject B) :
    Prop :=
  p.1 = detection.fileId ∧ ∃ objs ov, store detection.fileId = some objs ∧
    bestMatch overlap className detection.bbox objs = .ok (ov, some (p.2, obj)) ∧ thres ≤ ov

variable {overlap thres className} in
theorem IsMatch.objectAt {store : Store B} {detection : Detection B K} {p : String × ℕ}
    {obj : GtObject B} (h : IsMatch overlap thres className store detection p obj) :
    objectAt store p = some obj ∧ obj.className = className := by
  obtain ⟨hid, objs, ov, hobjs, hbest, -⟩ := h
  obtain ⟨hobj, hcls⟩ := bestMatch_some hbest
  refine ⟨?_, hcls⟩
  rw [Map.objectAt, hid, hobjs]
  exact hobj

variable {overlap thres className} in
/-- A claim is for a match that is not difficult, and a skip comes from a
difficult one. -/
theorem request_cases {store : Store B} {detection : Detection B K} {r : Request (String × ℕ)}
    (h : request overlap thres className store detection = .ok r) :
    (∃ p obj, r = .claim p ∧ IsMatch overlap thres className store detection p obj ∧
        obj.difficult = false) ∨
      r = .miss ∨
      (r = .skip ∧ ∃ p obj, IsMatch overlap thres className store detection p obj ∧
        obj.difficult = true) := by
  -- The branches of the source: no file, threshold not reached, `difficult`, and a claim.
  unfold request at h
  cases hobjs : store detection.fileId with
  | none =>
      rw [hobjs] at h
      cases h
  | some objs =>
      rw [hobjs] at h
      obtain ⟨⟨ov, m⟩, hbest, h⟩ := bind_eq_ok h
      by_cases hthres : thres ≤ ov
      · rw [if_pos hthres] at h
        cases m with
        | none => cases h
        | some q =>
            obtain ⟨i, obj⟩ := q
            have hmatch : IsMatch overlap thres className store detection
                (detection.fileId, i) obj := ⟨rfl, objs, ov, hobjs, hbest, hthres⟩
            cases hd : obj.difficult with
            | true =>
                simp only [hd, if_true] at h
                cases h
                exact Or.inr (Or.inr ⟨rfl, _, obj, hmatch, hd⟩)
            | false =>
                simp only [hd, Bool.false_eq_true, if_false] at h
                cases h
                exact Or.inl ⟨_, obj, rfl, hmatch, hd⟩
      · rw [if_neg hthres] at h
        cases h
        exact Or.inr (Or.inl rfl)

/-- With a file for the image, an overlap function that does not raise and a
threshold above -1, the request is made. -/
theorem exists_request (hthres : -1 < thres) (hoverlap : ∀ a b, ∃ v, overlap a b = .ok v)
    {store : Store B} {detection : Detection B K} (hfile : store detection.fileId ≠ none) :
    ∃ r, request overlap thres className store detection = .ok r := by
  -- The search returns, by induction on the objects.
  have hsearch : ∀ (objs : List (GtObject B)) i best,
      ∃ r, bestMatchFrom overlap className detection.bbox objs i best = .ok r := by
    intro objs
    induction objs with
    | nil => exact fun i best => ⟨best, rfl⟩
    | cons obj objs ih =>
        intro i best
        rw [bestMatchFrom]
        split
        · obtain ⟨v, hv⟩ := hoverlap obj.bbox detection.bbox
          rw [hv]
          show ∃ r, (if v.2 ≠ 0 ∧ best.1 < v.1 then _ else _) = Except.ok r
          split
          · exact ih _ _
          · exact ih _ _
        · exact ih _ _
  obtain ⟨objs, hobjs⟩ := Option.ne_none_iff_exists'.mp hfile
  obtain ⟨⟨ov, m⟩, hbest⟩ := hsearch objs 0 (-1, none)
  have hbest' : bestMatch overlap className detection.bbox objs = .ok (ov, m) := hbest
  unfold request
  rw [hobjs]
  simp only [hbest']
  show ∃ r, (if thres ≤ ov then _ else _) = Except.ok r
  by_cases hle : thres ≤ ov
  · rw [if_pos hle]
    cases m with
    | none => exact absurd (bestMatch_none hbest' ▸ hle) (not_le.mpr hthres)
    | some q =>
        show ∃ r, (if q.2.difficult then _ else _) = Except.ok r
        split
        · exact ⟨_, rfl⟩
        · exact ⟨_, rfl⟩
  · rw [if_neg hle]
    exact ⟨_, rfl⟩

/-! ### The loop -/

/-- One step of the loop settles the request of the detection. -/
theorem assign_markUsed (store : Store B) (taken : List (String × ℕ))
    (detection : Detection B K) :
    assign overlap thres className (markUsed store taken) detection =
      (request overlap thres className store detection).map fun r =>
        ((settle taken r).1, markUsed store (settle taken r).2) := by
  unfold assign request
  cases hobjs : store detection.fileId with
  | none => simp [markUsed, hobjs, Except.map]
  | some objs =>
      have hmarked : markUsed store taken detection.fileId =
          some (objs.mapIdx fun k obj => withUsed ((detection.fileId, k) ∈ taken) obj) := by
        rw [markUsed, hobjs, Option.map_some]
      rw [hmarked]
      simp only
      -- The search does not look at `used`, so the marks pass through it.
      rw [bestMatch_withUsed overlap className fun k => decide ((detection.fileId, k) ∈ taken)]
      cases hbest : bestMatch overlap className detection.bbox objs with
      | error e => rfl
      | ok best =>
          obtain ⟨ov, m⟩ := best
          show (if thres ≤ ov then _ else _) = Except.map _ (if thres ≤ ov then _ else _)
          split
          · cases m with
            | none => rfl
            | some q =>
                obtain ⟨i, obj⟩ := q
                show (if obj.difficult then _ else if decide ((detection.fileId, i) ∈ taken) then _
                  else _) = Except.map _ (if obj.difficult then _ else _)
                split
                · rfl
                · by_cases hmem : (detection.fileId, i) ∈ taken
                  · -- The object was matched before.
                    simp [Except.map, settle, hmem]
                  · -- Setting `used` is the mark of one more place.
                    have hupdate := markUsed_cons taken hobjs (bestMatch_some hbest).1
                    rw [if_neg (by simpa using hmem)]
                    show Except.ok (_, Function.update (markUsed store taken) detection.fileId
                      (some ((objs.mapIdx _).set i (withUsed true obj)))) = _
                    rw [hupdate]
                    simp [Except.map, settle, hmem]
          · rfl

/-- The loop settles the requests of the detections, in order. -/
theorem assignAll_markUsed (store : Store B) (taken : List (String × ℕ))
    (detections : List (Detection B K)) :
    assignAll overlap thres className (markUsed store taken) detections =
      (detections.mapM (request overlap thres className store)).map fun rs =>
        ((settleAll taken rs).1, markUsed store (settleAll taken rs).2) := by
  induction detections generalizing taken with
  | nil => rfl
  | cons detection detections ih =>
      -- A request does not depend on what is used, so all requests can be made first.
      rw [assignAll, assign_markUsed, List.mapM_cons]
      cases request overlap thres className store detection with
      | error e => rfl
      | ok r =>
          show (assignAll overlap thres className (markUsed store (settle taken r).2) detections
            >>= fun _ => _) = _
          rw [ih]
          cases detections.mapM (request overlap thres className store) with
          | error e => rfl
          | ok rs => rfl

end

end W2Net.Proofs.Map
