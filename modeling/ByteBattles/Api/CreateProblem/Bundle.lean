import ByteBattles.Api.CreateProblem.Uploads

/-!
# Which files of a bundle are paired

The files of the two folders are sorted as paths, paired by their position and compared by
their last components.
-/

namespace ByteBattles.Api.CreateProblem

open ByteBattles.Lib

variable {categories : List Str} {env : Environment} {c c' : State} {zip : ZipFile}
  {filename folder N : Str} {R : List Str} {pairs : List (Str × Str)}

/-! ## Relative paths -/

def ZipFile.filesUnder (zip : ZipFile) (folder : Str) : List Str :=
  zip.namelist.filter fun f => folder.isPrefixOf f && f.getLast? != some '/'

def ZipFile.relative (zip : ZipFile) (folder : Str) : List Str :=
  (zip.filesUnder folder).map (·.drop folder.length)

theorem filesUnder_eq (zip : ZipFile) (folder : Str) :
    zip.filesUnder folder = (zip.relative folder).map (folder ++ ·) := by
  have hsame : ∀ f ∈ zip.filesUnder folder, folder ++ f.drop folder.length = f := by
    intro f hf
    have hprefix := (Bool.and_eq_true_iff.mp (List.mem_filter.mp hf).2).1
    exact List.prefix_iff_eq_append.mp (List.isPrefixOf_iff_prefix.mp hprefix)
  rw [ZipFile.relative, List.map_map]
  exact (List.map_id (zip.filesUnder folder)).symm.trans
    (List.map_congr_left fun f hf => (hsame f hf).symm)

/-- The files of a folder are sorted by their paths in it. -/
theorem files_eq (zip : ZipFile) (folder : Str) :
    zip.files folder = (Str.sorted (zip.relative folder)).map (folder ++ ·) := by
  rw [← Str.sorted_map_append, ← filesUnder_eq]
  rfl

def inputsOf (filename : Str) : Str := Str.firstSegment '.' filename ++ inputsFolder

def outputsOf (filename : Str) : Str := Str.firstSegment '.' filename ++ outputsFolder

structure Accepted (filename : Str) (zip : ZipFile) (pairs : List (Str × Str)) : Prop where
  input_ne : zip.relative (inputsOf filename) ≠ []
  length_eq : (zip.relative (inputsOf filename)).length =
    (zip.relative (outputsOf filename)).length
  pairs_eq : pairs = ((Str.sorted (zip.relative (inputsOf filename))).map
    (inputsOf filename ++ ·)).zip ((Str.sorted (zip.relative (outputsOf filename))).map
      (outputsOf filename ++ ·))
  last_eq : ∀ pair ∈ pairs, Str.lastSegment '/' pair.1 = Str.lastSegment '/' pair.2

theorem pairedFiles_eq_ok :
    pairedFiles filename zip = .ok pairs ↔ Accepted filename zip pairs := by
  unfold pairedFiles
  simp only
  rw [← inputsOf, ← outputsOf, files_eq, files_eq]
  have hlength : ∀ folder, (Str.sorted (zip.relative folder)).length =
      (zip.relative folder).length := fun _ => List.length_insertionSort _ _
  have hnil : ∀ folder, Str.sorted (zip.relative folder) = [] ↔ zip.relative folder = [] := by
    intro folder
    rw [← List.length_eq_zero_iff, hlength, List.length_eq_zero_iff]
  split
  case isTrue hempty =>
    rw [List.map_eq_nil_iff, List.map_eq_nil_iff, hnil, hnil] at hempty
    refine ⟨fun h => (by cases h), fun h => ?_⟩
    rcases hempty with hnone | hnone
    · exact absurd hnone h.input_ne
    · have := h.length_eq
      rw [hnone, List.length_nil, List.length_eq_zero_iff] at this
      exact absurd this h.input_ne
  case isFalse hne =>
    rw [List.map_eq_nil_iff, List.map_eq_nil_iff, hnil, hnil, not_or] at hne
    split
    case isTrue hlen =>
      rw [List.length_map, List.length_map, hlength, hlength] at hlen
      exact ⟨fun h => (by cases h), fun h => absurd h.length_eq hlen⟩
    case isFalse hlen =>
      rw [List.length_map, List.length_map, hlength, hlength, not_not] at hlen
      split
      case isTrue hlast =>
        refine ⟨fun h => (by cases h), fun h => ?_⟩
        obtain ⟨pair, hpair, hdiffer⟩ := List.any_eq_true.mp hlast
        rw [← h.pairs_eq] at hpair
        exact absurd (h.last_eq pair hpair) (by simpa using hdiffer)
      case isFalse hlast =>
        rw [Except.ok.injEq]
        constructor
        · rintro rfl
          refine ⟨hne.1, hlen, rfl, fun pair hpair => ?_⟩
          by_contra hdiffer
          exact hlast (List.any_eq_true.mpr ⟨pair, hpair, by simpa using hdiffer⟩)
        · intro h
          exact h.pairs_eq.symm

/-! ## Pairs of one relative path -/

/-- Each file of the one folder is paired with the file of the other that has its path. -/
structure PairsOwn (filename : Str) (zip : ZipFile) (pairs : List (Str × Str)) : Prop where
  same_path : ∀ pair ∈ pairs, ∃ r, pair = (inputsOf filename ++ r, outputsOf filename ++ r)
  inputs : (pairs.map Prod.fst).Perm (zip.filesUnder (inputsOf filename))
  outputs : (pairs.map Prod.snd).Perm (zip.filesUnder (outputsOf filename))

/-- With the same paths in both folders, the two sorted lists are one list. -/
theorem Accepted.pairs_of_perm (h : Accepted filename zip pairs)
    (hperm : (zip.relative (inputsOf filename)).Perm (zip.relative (outputsOf filename))) :
    pairs = (Str.sorted (zip.relative (inputsOf filename))).map fun r =>
      (inputsOf filename ++ r, outputsOf filename ++ r) := by
  rw [h.pairs_eq, ← Str.sorted_eq_iff_perm.mpr hperm, List.zip_map']

theorem Accepted.used (h : Accepted filename zip pairs) :
    (pairs.map Prod.fst).Perm (zip.filesUnder (inputsOf filename)) ∧
      (pairs.map Prod.snd).Perm (zip.filesUnder (outputsOf filename)) := by
  have hlength : ((Str.sorted (zip.relative (inputsOf filename))).map
      (inputsOf filename ++ ·)).length = ((Str.sorted (zip.relative (outputsOf filename))).map
        (outputsOf filename ++ ·)).length := by
    rw [List.length_map, List.length_map, (Str.perm_sorted _).length_eq,
      (Str.perm_sorted _).length_eq, h.length_eq]
  rw [h.pairs_eq, filesUnder_eq, filesUnder_eq]
  constructor
  · rw [List.map_fst_zip hlength.le]
    exact (Str.perm_sorted _).map _
  · rw [List.map_snd_zip hlength.ge]
    exact (Str.perm_sorted _).map _

theorem Accepted.pairsOwn_iff (h : Accepted filename zip pairs) :
    PairsOwn filename zip pairs ↔
      (zip.relative (inputsOf filename)).Perm (zip.relative (outputsOf filename)) := by
  constructor
  · intro hown
    rw [← Str.sorted_eq_iff_perm]
    have hlength : (Str.sorted (zip.relative (inputsOf filename))).length =
        (Str.sorted (zip.relative (outputsOf filename))).length := by
      rw [(Str.perm_sorted _).length_eq, (Str.perm_sorted _).length_eq, h.length_eq]
    refine List.ext_getElem hlength fun i hi ho => ?_
    have hmem : (inputsOf filename ++ (Str.sorted (zip.relative (inputsOf filename)))[i],
        outputsOf filename ++ (Str.sorted (zip.relative (outputsOf filename)))[i]) ∈ pairs := by
      rw [h.pairs_eq]
      apply List.mem_of_getElem? (i := i)
      simp [hi, ho]
    obtain ⟨r, hr⟩ := hown.same_path _ hmem
    obtain ⟨hinput, houtput⟩ := Prod.mk.inj hr
    rw [List.append_cancel_left hinput, List.append_cancel_left houtput]
  · intro hperm
    refine ⟨fun pair hpair => ?_, h.used.1, h.used.2⟩
    rw [h.pairs_of_perm hperm] at hpair
    obtain ⟨r, -, rfl⟩ := List.mem_map.mp hpair
    exact ⟨r, rfl⟩

/-- **The testcases of an accepted bundle pair every input with its own output** if and only
if the paths of the files under the two folders are the same. -/
theorem created_pairs_iff {req : Request} {id : Str} {tags : List Str} {count : Nat}
    (h : resume categories env c req = (c', .created id tags count)) :
    ∃ zip pairs testcases, req.zip = some zip ∧
      pairedFiles req.filename zip = .ok pairs ∧ c'.testcases = c.testcases ++ testcases ∧
      (Distinct env 0 (2 * pairs.length) →
        List.Forall₂ (Holds zip c'.bucket) pairs testcases) ∧
      (PairsOwn req.filename zip pairs ↔
        (zip.relative (inputsOf req.filename)).Perm
          (zip.relative (outputsOf req.filename))) := by
  obtain ⟨v, testcases, hv, -, hupload, htestcases⟩ := resume_created h
  obtain ⟨hzip, hpairs, -⟩ := validate_eq_ok.mp hv
  have haccepted := pairedFiles_eq_ok.mp hpairs
  refine ⟨v.zip, v.files, testcases, hzip, hpairs, htestcases, fun hdistinct => ?_,
    haccepted.pairsOwn_iff⟩
  exact upload_holds hupload (by simpa using hdistinct)

def nested : ZipFile where
  entries := [("t/inputs/b/1".toList, some [50]), ("t/outputs/a/1".toList, some [52]),
    ("t/inputs/a/1".toList, some [49]), ("t/inputs/2".toList, some [51]),
    ("t/outputs/2".toList, some [54]), ("t/outputs/b/1".toList, some [53])]

theorem created_pairs_nested :
    ∃ pairs testcases, pairedFiles twoSum.filename nested = .ok pairs ∧ pairs.length = 3 ∧
      (resume [] calm start { twoSum with zip := some nested }).1.testcases =
        start.testcases ++ testcases ∧
      PairsOwn twoSum.filename nested pairs := by
  have hresponse : (resume [] calm start { twoSum with zip := some nested }).2 =
      .created ['p'] [] 3 := by decide
  obtain ⟨zip, pairs, testcases, hzip, hpairs, htestcases, -, hiff⟩ :=
    created_pairs_iff (Prod.ext rfl hresponse : resume [] calm start
      { twoSum with zip := some nested } = (_, .created ['p'] [] 3))
  obtain rfl := Option.some.inj hzip
  have hlength : (pairedFiles twoSum.filename nested).map List.length = .ok 3 := by decide
  rw [hpairs] at hlength
  exact ⟨pairs, testcases, hpairs, Except.ok.inj hlength, htestcases, hiff.mpr (by decide)⟩

/-- Two inputs and two outputs; only one path is in both folders. -/
def shifted : ZipFile where
  entries := [("t/inputs/a/1".toList, some [49]), ("t/inputs/b/1".toList, some [50]),
    ("t/outputs/b/1".toList, some [51]), ("t/outputs/c/1".toList, some [52])]

theorem not_pairsOwn_shifted :
    ¬ ∀ categories env c c' req id tags count zip pairs,
      resume categories env c req = (c', .created id tags count) → req.zip = some zip →
        pairedFiles req.filename zip = .ok pairs → PairsOwn req.filename zip pairs := by
  intro hall
  have hcreated : (resume [] calm start { twoSum with zip := some shifted }).2 =
      .created ['p'] [] 2 := by decide
  have hpairs : pairedFiles "t.zip".toList shifted =
      .ok [("t/inputs/a/1".toList, "t/outputs/b/1".toList),
        ("t/inputs/b/1".toList, "t/outputs/c/1".toList)] := by decide
  have hown := hall [] calm start (resume [] calm start { twoSum with zip := some shifted }).1
    { twoSum with zip := some shifted } ['p'] [] 2 shifted _ (Prod.ext rfl hcreated) rfl hpairs
  obtain ⟨r, hr⟩ := hown.same_path _ (List.mem_cons_self ..)
  obtain ⟨hinput, houtput⟩ := Prod.mk.inj hr
  have hfirst : "a/1".toList = r :=
    List.append_cancel_left (show "t/inputs/".toList ++ "a/1".toList = "t/inputs/".toList ++ r
      from hinput)
  have hsecond : "b/1".toList = r :=
    List.append_cancel_left (show "t/outputs/".toList ++ "b/1".toList = "t/outputs/".toList ++ r
      from houtput)
  exact absurd (hfirst.trans hsecond.symm) (by decide)

/-! ## Well-formed bundles -/

/-- The files of the archive are those of `R`, under both folders of `N`. -/
def HoldsBundle (N : Str) (R : List Str) (zip : ZipFile) : Prop :=
  (zip.namelist.filter (·.getLast? != some '/')).Perm
    (R.map (N ++ inputsFolder ++ ·) ++ R.map (N ++ outputsFolder ++ ·))

instance (N : Str) (R : List Str) (zip : ZipFile) : Decidable (HoldsBundle N R zip) :=
  inferInstanceAs (Decidable (List.Perm _ _))

/-- The bundle `N.zip` passes the checks, and its files are paired in order. -/
def AcceptedInOrder (N : Str) (R : List Str) (zip : ZipFile) : Prop :=
  pairedFiles (N ++ zipSuffix) zip = .ok ((Str.sorted R).map fun r =>
    (N ++ inputsFolder ++ r, N ++ outputsFolder ++ r))

instance (N : Str) (R : List Str) (zip : ZipFile) : Decidable (AcceptedInOrder N R zip) :=
  inferInstanceAs (Decidable (_ = _))

theorem firstSegment_of_not_mem (hN : '.' ∉ N) : Str.firstSegment '.' (N ++ zipSuffix) = N := by
  rw [Str.firstSegment, List.takeWhile_append_of_pos]
  · simp [zipSuffix]
  · intro a ha
    simpa using fun h : a = '.' => hN (h ▸ ha)

theorem firstSegment_of_mem (hN : '.' ∈ N) :
    ∃ rest, N = Str.firstSegment '.' (N ++ zipSuffix) ++ '.' :: rest := by
  induction N with
  | nil => cases hN
  | cons a N ih =>
      by_cases ha : a = '.'
      · subst ha
        exact ⟨N, by simp [Str.firstSegment]⟩
      · have hmem : '.' ∈ N := by simpa [Ne.symm ha] using hN
        obtain ⟨rest, hrest⟩ := ih hmem
        refine ⟨rest, ?_⟩
        have hfirst : Str.firstSegment '.' (a :: N ++ zipSuffix) =
            a :: Str.firstSegment '.' (N ++ zipSuffix) := by
          simp [Str.firstSegment, ha]
        rw [hfirst, List.cons_append, ← hrest]

theorem filesUnder_perm (h : HoldsBundle N R zip) (folder : Str) :
    (zip.filesUnder folder).Perm ((R.map (N ++ inputsFolder ++ ·) ++
      R.map (N ++ outputsFolder ++ ·)).filter folder.isPrefixOf) := by
  have hsplit : zip.filesUnder folder =
      (zip.namelist.filter (·.getLast? != some '/')).filter folder.isPrefixOf := by
    rw [ZipFile.filesUnder, List.filter_filter]
  rw [hsplit]
  exact h.filter _

/-- No file is found in the folder of another name. -/
theorem relative_eq_nil (h : HoldsBundle N R zip)
    (hnone : ∀ r, ¬ folder <+: N ++ inputsFolder ++ r ∧ ¬ folder <+: N ++ outputsFolder ++ r) :
    zip.relative folder = [] := by
  have hfilter : (R.map (N ++ inputsFolder ++ ·) ++
      R.map (N ++ outputsFolder ++ ·)).filter folder.isPrefixOf = [] := by
    rw [List.filter_eq_nil_iff]
    intro f hf
    rw [List.isPrefixOf_iff_prefix]
    rcases List.mem_append.mp hf with hf | hf
    · obtain ⟨r, -, rfl⟩ := List.mem_map.mp hf
      exact (hnone r).1
    · obtain ⟨r, -, rfl⟩ := List.mem_map.mp hf
      exact (hnone r).2
  have hperm := filesUnder_perm h folder
  rw [hfilter] at hperm
  rw [ZipFile.relative, hperm.eq_nil, List.map_nil]

theorem inputsFolder_eq : inputsFolder = '/' :: 'i' :: "nputs/".toList := by decide

theorem outputsFolder_eq : outputsFolder = '/' :: 'o' :: "utputs/".toList := by decide

theorem folders_apart (r : Str) :
    ¬ inputsFolder <+: outputsFolder ++ r ∧ ¬ outputsFolder <+: inputsFolder ++ r := by
  rw [inputsFolder_eq, outputsFolder_eq]
  simp only [List.cons_append, List.cons_prefix_cons]
  exact ⟨fun h => absurd h.2.1 (by decide), fun h => absurd h.2.1 (by decide)⟩

theorem relative_perm (h : HoldsBundle N R zip) :
    (zip.relative (N ++ inputsFolder)).Perm R ∧ (zip.relative (N ++ outputsFolder)).Perm R := by
  have hdrop : ∀ folder, (R.map (N ++ folder ++ ·)).map (·.drop (N ++ folder).length) = R := by
    intro folder
    rw [List.map_map]
    exact (List.map_congr_left fun r _ => List.drop_left).trans (List.map_id R)
  have hall : ∀ folder, (R.map (N ++ folder ++ ·)).filter (N ++ folder).isPrefixOf =
      R.map (N ++ folder ++ ·) := by
    intro folder
    rw [List.filter_eq_self]
    intro f hf
    obtain ⟨r, -, rfl⟩ := List.mem_map.mp hf
    exact List.isPrefixOf_iff_prefix.mpr (List.prefix_append ..)
  have hother : ∀ {folder folder'}, (∀ r, ¬ N ++ folder <+: N ++ folder' ++ r) →
      (R.map (N ++ folder' ++ ·)).filter (N ++ folder).isPrefixOf = [] := by
    intro folder folder' hne
    rw [List.filter_eq_nil_iff]
    intro f hf
    obtain ⟨r, -, rfl⟩ := List.mem_map.mp hf
    rw [List.isPrefixOf_iff_prefix]
    exact hne r
  have houtput : ∀ r, ¬ N ++ inputsFolder <+: N ++ outputsFolder ++ r := by
    intro r
    rw [List.append_assoc, List.prefix_append_right_inj]
    exact (folders_apart r).1
  have hinput : ∀ r, ¬ N ++ outputsFolder <+: N ++ inputsFolder ++ r := by
    intro r
    rw [List.append_assoc, List.prefix_append_right_inj]
    exact (folders_apart r).2
  constructor
  · have hperm := (filesUnder_perm h (N ++ inputsFolder)).map (·.drop (N ++ inputsFolder).length)
    rwa [List.filter_append, hall, hother houtput, List.append_nil, hdrop] at hperm
  · have hperm :=
      (filesUnder_perm h (N ++ outputsFolder)).map (·.drop (N ++ outputsFolder).length)
    rwa [List.filter_append, hall, hother hinput, List.nil_append, hdrop] at hperm

/-- What precedes a dot is a folder of nothing. -/
theorem relative_of_mem (h : HoldsBundle N R zip) (hN : '.' ∈ N) {folder : Str}
    (hfolder : ∃ path, folder = '/' :: path) :
    zip.relative (Str.firstSegment '.' (N ++ zipSuffix) ++ folder) = [] := by
  obtain ⟨rest, hrest⟩ := firstSegment_of_mem hN
  obtain ⟨path, rfl⟩ := hfolder
  generalize Str.firstSegment '.' (N ++ zipSuffix) = first at hrest
  have hnone : ∀ file : Str, ¬ first ++ '/' :: path <+: N ++ file := by
    intro file
    rw [hrest, List.append_assoc, List.prefix_append_right_inj, List.cons_append,
      List.cons_prefix_cons]
    exact fun hhead => absurd hhead.1 (by decide)
  refine relative_eq_nil h fun r => ?_
  rw [List.append_assoc, List.append_assoc]
  exact ⟨hnone _, hnone _⟩

theorem lastSegment_folder (N r : Str) {folder path : Str} (hfolder : folder = path ++ ['/']) :
    Str.lastSegment '/' (N ++ folder ++ r) = Str.lastSegment '/' r := by
  subst hfolder
  rw [Str.lastSegment, Str.lastSegment]
  congr 1
  simp only [List.reverse_append, List.reverse_cons, List.append_assoc]
  rw [List.takeWhile_append]
  split
  case isTrue hall =>
    have hself := (List.takeWhile_prefix _).eq_of_length hall
    simpa using hself.symm
  case isFalse => rfl

/-- A bundle with a dot in its name has no files for the check. -/
theorem pairedFiles_of_mem (h : HoldsBundle N R zip) (hN : '.' ∈ N) :
    pairedFiles (N ++ zipSuffix) zip = .error "ZIP must contain inputs/ and outputs/" := by
  have hnone := relative_of_mem h hN ⟨_, inputsFolder_eq⟩
  unfold pairedFiles
  dsimp only
  rw [if_pos]
  left
  rw [files_eq, hnone]
  rfl

theorem acceptedInOrder_iff (h : HoldsBundle N R zip) (hR : R ≠ []) :
    AcceptedInOrder N R zip ↔ '.' ∉ N := by
  constructor
  · intro haccepted hN
    rw [AcceptedInOrder, pairedFiles_of_mem h hN] at haccepted
    cases haccepted
  · intro hN
    have hin : inputsOf (N ++ zipSuffix) = N ++ inputsFolder := by
      rw [inputsOf, firstSegment_of_not_mem hN]
    have hout : outputsOf (N ++ zipSuffix) = N ++ outputsFolder := by
      rw [outputsOf, firstSegment_of_not_mem hN]
    obtain ⟨hinputs, houtputs⟩ := relative_perm h
    rw [AcceptedInOrder, pairedFiles_eq_ok]
    constructor
    · intro hnil
      rw [hin] at hnil
      rw [hnil] at hinputs
      exact hR hinputs.nil_eq.symm
    · rw [hin, hout, hinputs.length_eq, houtputs.length_eq]
    · rw [hin, hout, Str.sorted_eq_iff_perm.mpr hinputs, Str.sorted_eq_iff_perm.mpr houtputs,
        List.zip_map']
    · intro pair hpair
      obtain ⟨r, -, rfl⟩ := List.mem_map.mp hpair
      have hinputs : inputsFolder = "/inputs".toList ++ ['/'] := by decide
      have houtputs : outputsFolder = "/outputs".toList ++ ['/'] := by decide
      rw [lastSegment_folder N r hinputs, lastSegment_folder N r houtputs]

theorem upload_total (id : Str) (hcalm : ∀ call, env.raises call = false) (n : Nat)
    (bucket : Bucket (List Byte))
    (hread : ∀ pair ∈ pairs, (zip.read pair.1).isSome ∧ (zip.read pair.2).isSome) :
    ∃ testcases, (upload env id zip n pairs bucket).2 = some testcases ∧
      testcases.length = pairs.length := by
  induction pairs generalizing n bucket with
  | nil => exact ⟨[], rfl, rfl⟩
  | cons pair pairs ih =>
      obtain ⟨input_path, output_path⟩ := pair
      obtain ⟨hinput, houtput⟩ := hread _ (List.mem_cons_self ..)
      obtain ⟨input_data, hinput⟩ := Option.isSome_iff_exists.mp hinput
      obtain ⟨output_data, houtput⟩ := Option.isSome_iff_exists.mp houtput
      have hrest := fun bucket => ih (n + 1) bucket
        fun pair hpair => hread pair (List.mem_cons_of_mem _ hpair)
      simp only [upload, hinput, houtput, hcalm, Bool.false_eq_true, if_false]
      generalize Bucket.putObject (bucket.putObject _ input_data) _ output_data = stored
      obtain ⟨testcases, hupload, hlength⟩ := hrest stored
      cases hrun : upload env id zip (n + 1) pairs stored with
      | mk bucket' testcases' =>
          rw [hrun] at hupload
          obtain rfl : testcases' = some testcases := hupload
          exact ⟨_, rfl, by simp [hlength]⟩

/-- A bundle that is accepted is created with one testcase for each path, in order. -/
theorem AcceptedInOrder.created (h : AcceptedInOrder N R zip) {req : Request}
    {tags : List Str} (hname : req.filename = N ++ zipSuffix) (hzip : req.zip = some zip)
    (hnew : req.id ∉ c.problems) (htags : knownTags categories req.tags = .ok tags)
    (hcalm : ∀ call, env.raises call = false)
    (hread : ∀ pair ∈ (Str.sorted R).map fun r =>
        (N ++ inputsFolder ++ r, N ++ outputsFolder ++ r),
      (zip.read pair.1).isSome ∧ (zip.read pair.2).isSome) :
    check c req = .reading req ∧ ∃ c' testcases,
      resume categories env c req = (c', .created req.id tags R.length) ∧
        c'.testcases = c.testcases ++ testcases ∧ testcases.length = R.length ∧
        (Distinct env 0 (2 * R.length) → List.Forall₂ (Holds zip c'.bucket)
          ((Str.sorted R).map fun r => (N ++ inputsFolder ++ r, N ++ outputsFolder ++ r))
          testcases) := by
  rw [AcceptedInOrder] at h
  generalize hpairs : ((Str.sorted R).map fun r =>
    (N ++ inputsFolder ++ r, N ++ outputsFolder ++ r)) = pairs at h hread ⊢
  have hlength : pairs.length = R.length := by
    rw [← hpairs, List.length_map, (Str.perm_sorted R).length_eq]
  have hsuffix : zipSuffix <:+ req.filename := hname ▸ List.suffix_append ..
  refine ⟨by simp [check, hnew, hsuffix], ?_⟩
  have hvalid : validate categories req = .ok ⟨zip, pairs, tags⟩ :=
    validate_eq_ok.mpr ⟨hzip, hname ▸ h, htags⟩
  obtain ⟨testcases, hupload, hcount⟩ := upload_total req.id hcalm 0 c.bucket hread
  have hflush : ¬ FlushRaises env c req.id := by
    rintro (hraises | hmem)
    · simp [hcalm] at hraises
    · exact hnew hmem
  cases hrun : upload env req.id zip 0 pairs c.bucket with
  | mk stored result =>
      obtain rfl : result = some testcases := by simpa [hrun] using hupload
      have htry : tryBlock env c req.id ⟨zip, pairs, tags⟩ = (stored, some testcases) := by
        simp only [tryBlock, if_neg hflush, hrun, hcalm, Bool.false_eq_true, if_false]
      refine ⟨{ c with
        problems := c.problems ++ [req.id]
        testcases := c.testcases ++ testcases
        bucket := stored }, testcases, ?_, rfl, hcount.trans hlength, fun hdistinct => ?_⟩
      · simp only [resume, hvalid, htry, hlength]
      · exact upload_holds hrun (by simpa [hlength] using hdistinct)

theorem HoldsBundle.mem (h : HoldsBundle N R zip) {r : Str} (hr : r ∈ R) :
    N ++ inputsFolder ++ r ∈ zip.namelist ∧ N ++ outputsFolder ++ r ∈ zip.namelist := by
  have hin : N ++ inputsFolder ++ r ∈ R.map (N ++ inputsFolder ++ ·) :=
    List.mem_map_of_mem hr
  have hout : N ++ outputsFolder ++ r ∈ R.map (N ++ outputsFolder ++ ·) :=
    List.mem_map_of_mem hr
  exact ⟨List.mem_of_mem_filter (h.mem_iff.mpr (List.mem_append_left _ hin)),
    List.mem_of_mem_filter (h.mem_iff.mpr (List.mem_append_right _ hout))⟩

/-- **A well-formed bundle is accepted, and its files are paired in order,** if and only if
its name has no dot.  When nothing raises, it is then created with one testcase for each
path. -/
theorem bundle_accepted_iff (h : HoldsBundle N R zip) (hR : R ≠ []) :
    (AcceptedInOrder N R zip ↔ '.' ∉ N) ∧
    ('.' ∉ N → (∀ name ∈ zip.namelist, (zip.read name).isSome) →
      ∀ categories env c req tags, req.filename = N ++ zipSuffix → req.zip = some zip →
        req.id ∉ c.problems → knownTags categories req.tags = .ok tags →
        (∀ call, env.raises call = false) →
          check c req = .reading req ∧ ∃ c' testcases,
            resume categories env c req = (c', .created req.id tags R.length) ∧
              c'.testcases = c.testcases ++ testcases ∧ testcases.length = R.length ∧
              (Distinct env 0 (2 * R.length) → List.Forall₂ (Holds zip c'.bucket)
                ((Str.sorted R).map fun r =>
                  (N ++ inputsFolder ++ r, N ++ outputsFolder ++ r)) testcases)) := by
  have hiff := acceptedInOrder_iff h hR
  refine ⟨hiff, ?_⟩
  intro hN hread categories env c req tags hname hzip hnew htags hcalm
  refine (hiff.mpr hN).created hname hzip hnew htags hcalm fun pair hpair => ?_
  obtain ⟨r, hr, rfl⟩ := List.mem_map.mp hpair
  obtain ⟨hin, hout⟩ := h.mem (Str.mem_sorted.mp hr)
  exact ⟨hread _ hin, hread _ hout⟩

def unordered : ZipFile where
  entries := [("sum/outputs/b".toList, some []), ("sum/inputs/".toList, some []),
    ("sum/inputs/b".toList, some []), ("sum/inputs/a".toList, some []),
    ("sum/outputs/a".toList, some [])]

theorem bundle_accepted_unordered :
    AcceptedInOrder "sum".toList [['b'], ['a']] unordered :=
  (bundle_accepted_iff (show HoldsBundle "sum".toList [['b'], ['a']] unordered by decide)
    (by decide)).1.mpr (by decide)

def dotted : ZipFile where
  entries := [("v1.2/inputs/1".toList, some []), ("v1.2/outputs/1".toList, some [])]

theorem not_acceptedInOrder_dotted :
    ¬ ∀ N R zip, N ≠ [] → R ≠ [] → R.Nodup → HoldsBundle N R zip → AcceptedInOrder N R zip := by
  intro hall
  have haccepted := hall "v1.2".toList [['1']] dotted (by decide) (by decide) (by decide)
    (by decide)
  revert haccepted
  decide

end ByteBattles.Api.CreateProblem
