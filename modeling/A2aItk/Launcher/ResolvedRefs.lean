import A2aItk.Launcher.Refs
import Mathlib.Data.List.Nodup
import Mathlib.Data.List.Perm.Basic

/-!
# Which ref a name resolves to

An answer with longer branches or tags that end in the name may be picked from at the wrong
line. What the pick depends on is the first ref of the kind that is preferred.
-/

namespace A2aItk.Launcher

open Python

variable {lower : String → String} {timeoutText : String}

section Specification

/-- A branch or tag that merely ends in the name. -/
def Longer (ref : String) (listed : ListedRef) : Prop :=
  (isBranch listed.name = true ∨ isTag listed.name = true) ∧
    listed.name ≠ "refs/heads/" ++ ref ∧ listed.name ≠ "refs/tags/" ++ ref ∧
    ("/" ++ ref).toList <:+ listed.name.toList

/-- The branch of the name is returned where it is listed, otherwise the tag, and never
what is only listed under a longer name. -/
structure Meant (ref : String) (refs : List ListedRef)
    (result : Except LauncherError String) : Prop where
  branch : ∀ listed ∈ refs, listed.name = "refs/heads/" ++ ref → result = .ok listed.sha
  tag : (∀ listed ∈ refs, listed.name ≠ "refs/heads/" ++ ref) →
    ∀ listed ∈ refs, listed.name = "refs/tags/" ++ ref → result = .ok listed.sha
  notLonger : ∀ sha, result = .ok sha → ∃ listed ∈ refs, listed.sha = sha ∧ ¬ Longer ref listed

/-- An attempt that is made again: a query times out, or fails for the moment. -/
inductive MadeAgain (lower : String → String) (git : ℕ → Query → GitResult) (attempt : ℕ) : Prop
  | timedOut (h : git attempt .branchesAndTags = .timeout)
  | failed (returncode : ℤ) (stdout stderr : String)
      (h : git attempt .branchesAndTags = .exited returncode stdout stderr)
      (code : returncode ≠ 0) (passing : isPermanent lower stderr = false)
  | empty (stderr : String) (h : git attempt .branchesAndTags = .exited 0 (output []) stderr)
      (unfiltered : git attempt .everything = .timeout)

/-- Attempts before this one are made again; this one is answered, and where it lists no branch
and no tag, everything is. -/
structure Answered (lower : String → String) (git : ℕ → Query → GitResult) (attempt : ℕ)
    (filtered everything : List ListedRef) : Prop where
  before : ∀ earlier < attempt, MadeAgain lower git earlier
  listed : ∃ stderr, git attempt .branchesAndTags = .exited 0 (output filtered) stderr
  everything : filtered = [] →
    ∃ stderr, git attempt .everything = .exited 0 (output everything) stderr

/-- The answer the commit is picked from. -/
def effective (filtered everything : List ListedRef) : List ListedRef :=
  if filtered = [] then everything else filtered

/-- One result, that of the ref meant, in every run that is answered with these lines in any
order. -/
def ResolvesToItself (lower : String → String) (timeoutText repo ref : String)
    (filtered everything : List ListedRef) : Prop :=
  ∃ result, Meant ref (effective filtered everything) result ∧
    ∀ filtered' everything', filtered'.Perm filtered → everything'.Perm everything →
      ∀ git attempt retries, attempt < retries →
        Answered lower git attempt filtered' everything' →
        resolveRef lower timeoutText git repo ref retries = result

/-- The refs of the kind that is preferred: branches, otherwise tags, otherwise all. -/
def preferred (refs : List ListedRef) : List ListedRef :=
  if (refs.filter fun listed => isBranch listed.name) ≠ [] then
    refs.filter fun listed => isBranch listed.name
  else if (refs.filter fun listed => isTag listed.name) ≠ [] then
    refs.filter fun listed => isTag listed.name
  else refs

/-- The branch of the name, otherwise the tag, otherwise a ref that is not just longer. -/
def IsTarget (ref : String) (refs : List ListedRef) (target : ListedRef) : Prop :=
  target ∈ refs ∧ (target.name = "refs/heads/" ++ ref ∨
    (∀ listed ∈ refs, listed.name ≠ "refs/heads/" ++ ref) ∧
      (target.name = "refs/tags/" ++ ref ∨
        (∀ listed ∈ refs, listed.name ≠ "refs/tags/" ++ ref) ∧ ¬ Longer ref target))

/-- Nothing is listed, or every preferred ref has the commit of the target. -/
def TipAgreed (ref : String) (refs : List ListedRef) : Prop :=
  refs = [] ∨ ∃ target, IsTarget ref refs target ∧
    ∀ listed ∈ preferred refs, listed.sha = target.sha

end Specification

section Reading

variable {refs : List ListedRef} {listed : ListedRef}

/-- No digit of a commit is a space. -/
theorem isShaChar_ne_space {c : Char} (h : isShaChar c = true) : Text.isSpace c = false := by
  rw [isShaChar, Bool.or_eq_true] at h
  rcases h with hdigit | hletter
  · exact Text.not_isSpace_of_isDigit hdigit
  · rw [Bool.and_eq_true, decide_eq_true_eq, decide_eq_true_eq] at hletter
    have hlow : 97 ≤ c.toNat := UInt32.le_iff_toNat_le.mp hletter.1
    have hhigh : c.toNat ≤ 102 := UInt32.le_iff_toNat_le.mp hletter.2
    simp [Text.isSpace, Text.whitespacePoints]
    omega

/-- A commit consists of its digits. -/
theorem isSha_spec {s : List Char} (h : isSha s = true) : s ≠ [] ∧ ∀ c ∈ s, isShaChar c = true := by
  rw [isSha, Bool.and_eq_true, decide_eq_true_eq, List.all_eq_true] at h
  refine ⟨?_, h.2⟩
  rintro rfl
  exact absurd h.1 (by decide)

/-- A well-formed line is read as what it was written from. -/
theorem readLine_line (h : listed.WellFormed) :
    readLine listed.line = some (listed.sha, listed.name) := by
  obtain ⟨hne, hdigits⟩ := isSha_spec h.sha
  have hname : listed.name.toList ≠ [] := fun hnil =>
    h.named (String.toList_inj.mp (hnil.trans String.toList_empty.symm))
  have hstripName : Text.strip listed.name.toList = listed.name.toList :=
    Text.strip_eq_self h.noSpaceBefore h.noSpaceAfter
  have hstripSha : Text.strip listed.sha.toList = listed.sha.toList :=
    Text.strip_eq_self
      (fun c hc => isShaChar_ne_space (hdigits c (List.mem_of_mem_head? hc)))
      (fun c hc => isShaChar_ne_space (hdigits c (List.mem_of_mem_getLast? hc)))
  have hstrip : Text.strip listed.line = listed.line := by
    refine Text.strip_eq_self (fun c hc => ?_) fun c hc => ?_
    · obtain ⟨d, rest, hcons⟩ := List.exists_cons_of_ne_nil hne
      rw [ListedRef.line, hcons, List.cons_append, List.head?_cons] at hc
      obtain rfl := Option.some.inj hc
      exact isShaChar_ne_space (hdigits _ (by simp [hcons]))
    · rw [ListedRef.line, List.getLast?_append_of_ne_nil _ (by simp)] at hc
      refine h.noSpaceAfter c ?_
      obtain ⟨d, rest, hcons⟩ := List.exists_cons_of_ne_nil hname
      rw [hcons] at hc ⊢
      rwa [List.getLast?_cons_cons] at hc
  have htab : '\t' ∉ listed.sha.toList := fun hin => by
    exact absurd (hdigits _ hin) (by decide)
  rw [readLine, hstrip, ListedRef.line, Text.partition_of_notMem htab]
  simp only [hstripSha, hstripName, h.sha, if_true, String.ofList_toList]

/-- A whole answer is read line by line. -/
theorem readLine_output (h : ∀ listed ∈ refs, listed.WellFormed) :
    (Text.splitlines (output refs).toList).filterMap readLine =
      refs.map fun listed => (listed.sha, listed.name) := by
  have hlines : (output refs).toList = (refs.map ListedRef.line).flatMap (· ++ ['\n']) := by
    rw [output, String.toList_ofList, List.flatMap_map]
  have hbreak : ∀ line ∈ refs.map ListedRef.line, ∀ c ∈ line, Text.isLineBreak c = false := by
    intro line hline c hc
    obtain ⟨listed, hlisted, rfl⟩ := List.mem_map.mp hline
    rw [ListedRef.line, List.mem_append, List.mem_cons] at hc
    rcases hc with hsha | rfl | hname
    · have hspace := isShaChar_ne_space ((isSha_spec (h listed hlisted).sha).2 c hsha)
      rw [Bool.eq_false_iff] at hspace ⊢
      intro hbreak
      apply hspace
      simp only [Text.isLineBreak, Text.lineBreakPoints, decide_eq_true_eq, List.mem_cons,
        List.not_mem_nil, or_false] at hbreak
      simp only [Text.isSpace, Text.whitespacePoints, decide_eq_true_eq, List.mem_cons,
        List.not_mem_nil, or_false]
      omega
    · decide
    · exact (h listed hlisted).noBreak c hname
  rw [hlines, Text.splitlines_join hbreak, List.filterMap_map]
  have hread : refs.filterMap (readLine ∘ ListedRef.line) =
      refs.filterMap fun listed => some (listed.sha, listed.name) :=
    List.filterMap_congr fun listed hlisted => readLine_line (h listed hlisted)
  rw [hread, List.filterMap_eq_map']

end Reading

section Picking

variable {refs : List ListedRef}

/-- A branch is not a tag. -/
theorem isTag_of_isBranch {name : String} (h : isBranch name = true) : isTag name = false := by
  rw [Bool.eq_false_iff]
  intro htag
  rw [isBranch, List.isPrefixOf_iff_prefix] at h
  rw [isTag, List.isPrefixOf_iff_prefix] at htag
  have hshort := List.prefix_of_prefix_length_le htag h (by decide)
  exact absurd hshort (by decide)

/-- The first branch is kept. -/
theorem note_head (picks : Picks) (sha name : String) :
    (picks.note (sha, name)).head = picks.head.or (if isBranch name then some sha else none) := by
  unfold Picks.note
  cases hhead : picks.head with
  | some head => split_ifs <;> simp_all
  | none => split_ifs <;> simp_all

/-- The first tag is kept. -/
theorem note_tag (picks : Picks) (sha name : String) :
    (picks.note (sha, name)).tag = picks.tag.or (if isTag name then some sha else none) := by
  have hkinds : isBranch name = true → isTag name = false := isTag_of_isBranch
  unfold Picks.note
  cases htag : picks.tag with
  | some tag => split_ifs <;> simp_all
  | none => split_ifs <;> simp_all

/-- The first of the others is kept. -/
theorem note_other (picks : Picks) {sha name : String} (hbranch : isBranch name = false)
    (htag : isTag name = false) : (picks.note (sha, name)).other = picks.other.or (some sha) := by
  unfold Picks.note
  cases hother : picks.other with
  | some other => simp [hbranch, htag, hother]
  | none => simp [hbranch, htag]

/-- The picks are the first of each kind. -/
theorem foldl_note (refs : List ListedRef) (picks : Picks) :
    let noted := (refs.map fun listed => (listed.sha, listed.name)).foldl Picks.note picks
    noted.head = picks.head.or
      ((refs.find? fun listed => isBranch listed.name).map ListedRef.sha) ∧
    noted.tag = picks.tag.or ((refs.find? fun listed => isTag listed.name).map ListedRef.sha) ∧
    ((∀ listed ∈ refs, isBranch listed.name = false ∧ isTag listed.name = false) →
      noted.other = picks.other.or (refs.head?.map ListedRef.sha)) := by
  induction refs generalizing picks with
  | nil => simp
  | cons listed rest ih =>
      obtain ⟨hhead, htag, hother⟩ := ih (picks.note (listed.sha, listed.name))
      dsimp only at hhead htag hother ⊢
      rw [List.map_cons, List.foldl_cons]
      refine ⟨?_, ?_, fun hneither => ?_⟩
      · rw [hhead, note_head, Option.or_assoc, List.find?_cons]
        cases isBranch listed.name <;> simp
      · rw [htag, note_tag, Option.or_assoc, List.find?_cons]
        cases isTag listed.name <;> simp
      · obtain ⟨hbranch, htag⟩ := hneither listed (by simp)
        rw [hother fun l hl => hneither l (by simp [hl]), note_other picks hbranch htag,
          Option.or_assoc]
        simp

/-- The commit of the first preferred ref. -/
theorem pickSha_output (h : ∀ listed ∈ refs, listed.WellFormed) :
    pickSha (output refs) = (preferred refs).head?.map ListedRef.sha := by
  obtain ⟨hhead, htag, hother⟩ := foldl_note refs {}
  rw [pickSha, readLine_output h, Picks.best, hhead, htag]
  rw [preferred, ← List.head?_filter, ← List.head?_filter]
  by_cases hbranches : (refs.filter fun listed => isBranch listed.name) = []
  · by_cases htags : (refs.filter fun listed => isTag listed.name) = []
    · have hneither : ∀ listed ∈ refs, isBranch listed.name = false ∧ isTag listed.name = false :=
        fun listed hlisted => ⟨by simpa using List.filter_eq_nil_iff.mp hbranches listed hlisted,
          by simpa using List.filter_eq_nil_iff.mp htags listed hlisted⟩
      simp [hbranches, htags, hother hneither]
    · obtain ⟨first, rest, heq⟩ := List.exists_cons_of_ne_nil htags
      simp [hbranches, heq]
  · obtain ⟨first, rest, heq⟩ := List.exists_cons_of_ne_nil hbranches
    simp [heq]

end Picking

section Runs

variable {git : ℕ → Query → GitResult} {repo ref : String} {filtered everything : List ListedRef}
  {attempt retries : ℕ}

/-- Something is preferred as soon as something is listed. -/
theorem preferred_eq_nil_iff {refs : List ListedRef} : preferred refs = [] ↔ refs = [] := by
  rw [preferred]
  split
  · rename_i hbranches
    exact iff_of_false hbranches fun hnil => hbranches (by rw [hnil]; rfl)
  · split
    · rename_i htags
      exact iff_of_false htags fun hnil => htags (by rw [hnil]; rfl)
    · rfl

/-- What an answered call returns: the commit of the first preferred ref. -/
def firstPreferred (repo ref : String) (refs : List ListedRef) : Except LauncherError String :=
  match (preferred refs).head? with
  | some listed => .ok listed.sha
  | none => .error (noMatch repo ref)

/-- By induction on the attempts: those before the answer are made again. -/
theorem resolveFrom_answered (hfiltered : ∀ listed ∈ filtered, listed.WellFormed)
    (heverything : ∀ listed ∈ everything, listed.WellFormed)
    (h : Answered lower git attempt filtered everything) :
    ∀ remaining start cause, start ≤ attempt → attempt < start + remaining →
      resolveFrom lower timeoutText git repo ref remaining start cause =
        firstPreferred repo ref (effective filtered everything) := by
  intro remaining
  induction remaining with
  | zero => exact fun start cause hle hlt => absurd hlt (by omega)
  | succ remaining ih =>
      intro start cause hle hlt
      rw [resolveFrom]
      by_cases hstart : start = attempt
      · subst hstart
        obtain ⟨stderr, hanswer⟩ := h.listed
        rw [hanswer]
        dsimp only
        rw [if_pos rfl, pickSha_output hfiltered, effective]
        by_cases hnil : filtered = []
        · have hnone : (preferred filtered).head? = none := by
            rw [preferred_eq_nil_iff.mpr hnil, List.head?_nil]
          obtain ⟨stderr', hanswer'⟩ := h.everything hnil
          rw [hnone, if_pos hnil, Option.map_none, hanswer']
          dsimp only
          rw [if_pos rfl, pickSha_output heverything, firstPreferred]
          cases (preferred everything).head? with
          | none => rfl
          | some listed => rfl
        · obtain ⟨first, rest, heq⟩ :=
            List.exists_cons_of_ne_nil (mt preferred_eq_nil_iff.mp hnil)
          rw [if_neg hnil, firstPreferred, heq, List.head?_cons, Option.map_some]
      · have hlater := fun cause => ih (start + 1) cause (by omega) (by omega)
        cases h.before start (by omega) with
        | timedOut htimeout =>
            rw [htimeout]
            exact hlater _
        | failed returncode stdout stderr hexit hcode hpassing =>
            rw [hexit]
            dsimp only
            rw [if_neg hcode, if_neg (by simp [hpassing])]
            exact hlater _
        | empty stderr hexit htimeout =>
            have hnothing : pickSha (output []) = none :=
              (pickSha_output fun listed hlisted => absurd hlisted List.not_mem_nil).trans rfl
            rw [hexit]
            dsimp only
            rw [if_pos rfl, hnothing, htimeout]
            exact hlater _

/-- An answered call returns the first preferred commit. -/
theorem resolveRef_answered (hfiltered : ∀ listed ∈ filtered, listed.WellFormed)
    (heverything : ∀ listed ∈ everything, listed.WellFormed) (hattempt : attempt < retries)
    (h : Answered lower git attempt filtered everything) :
    resolveRef lower timeoutText git repo ref retries =
      firstPreferred repo ref (effective filtered everything) :=
  resolveFrom_answered hfiltered heverything h retries 0 none (by omega) (by omega)

/-- A server that answers every attempt alike. -/
def answering (filtered everything : List ListedRef) : ℕ → Query → GitResult
  | _, .branchesAndTags => .exited 0 (output filtered) ""
  | _, .everything => .exited 0 (output everything) ""

theorem answered_answering (filtered everything : List ListedRef) :
    Answered lower (answering filtered everything) 0 filtered everything where
  before := fun earlier hearlier => absurd hearlier (by omega)
  listed := ⟨"", rfl⟩
  everything := fun _ => ⟨"", rfl⟩

end Runs

section Orders

variable {filtered everything filtered' everything' refs refs' : List ListedRef}
  {listed : ListedRef}

/-- Another order of the answers is another order of the effective one. -/
theorem effective_perm (hfiltered : filtered'.Perm filtered)
    (heverything : everything'.Perm everything) :
    (effective filtered' everything').Perm (effective filtered everything) := by
  rw [effective, effective]
  by_cases hnil : filtered = []
  · subst hnil
    rw [if_pos rfl, if_pos hfiltered.eq_nil]
    exact heverything
  · have hnil' : filtered' ≠ [] := by
      rintro rfl
      exact hnil hfiltered.symm.eq_nil
    rw [if_neg hnil, if_neg hnil']
    exact hfiltered

/-- Every order of the effective answer is that of some answers. -/
theorem exists_effective (h : refs.Perm (effective filtered everything)) :
    ∃ filtered' everything', filtered'.Perm filtered ∧ everything'.Perm everything ∧
      effective filtered' everything' = refs := by
  rw [effective] at h
  by_cases hnil : filtered = []
  · rw [if_pos hnil] at h
    exact ⟨filtered, refs, .refl _, h, if_pos hnil⟩
  · rw [if_neg hnil] at h
    refine ⟨refs, everything, h, .refl _, if_neg fun hnil' => hnil ?_⟩
    rw [hnil'] at h
    exact h.symm.eq_nil

/-- Another order of the refs is another order of the preferred ones. -/
theorem preferred_perm (h : refs'.Perm refs) : (preferred refs').Perm (preferred refs) := by
  have hempty : ∀ p : ListedRef → Bool, refs'.filter p = [] ↔ refs.filter p = [] := by
    intro p
    have hperm := h.filter p
    constructor
    · intro hnil
      rw [hnil] at hperm
      exact hperm.symm.eq_nil
    · intro hnil
      rw [hnil] at hperm
      exact hperm.eq_nil
  rw [preferred, preferred]
  simp only [ne_eq, hempty]
  split
  · exact h.filter _
  · split
    · exact h.filter _
    · exact h

/-- What is preferred is listed. -/
theorem mem_of_mem_preferred (h : listed ∈ preferred refs) : listed ∈ refs := by
  rw [preferred] at h
  split at h
  · exact List.mem_of_mem_filter h
  · split at h
    · exact List.mem_of_mem_filter h
    · exact h

/-- Any preferred ref can be listed first. -/
theorem exists_head?_preferred (h : listed ∈ preferred refs) :
    ∃ refs', refs'.Perm refs ∧ (preferred refs').head? = some listed := by
  have hin := mem_of_mem_preferred h
  refine ⟨listed :: refs.erase listed, (List.perm_cons_erase hin).symm, ?_⟩
  have hmem := (preferred_perm (List.perm_cons_erase hin).symm).mem_iff.mpr h
  have hfirst : ∀ p : ListedRef → Bool, listed ∈ (listed :: refs.erase listed).filter p →
      ((listed :: refs.erase listed).filter p).head? = some listed := by
    intro p hp
    rw [List.filter_cons_of_pos (List.mem_filter.mp hp).2, List.head?_cons]
  rw [preferred] at hmem ⊢
  split
  · rename_i hbranches
    rw [if_pos hbranches] at hmem
    exact hfirst _ hmem
  · rename_i hbranches
    rw [if_neg hbranches] at hmem
    split
    · rename_i htags
      rw [if_pos htags] at hmem
      exact hfirst _ hmem
    · rfl

end Orders

section Resolution

variable {repo ref : String} {refs refs' : List ListedRef}

/-- Where all that is preferred has one commit, the order does not matter. -/
theorem firstPreferred_eq {sha : String} (hne : refs ≠ [])
    (h : ∀ listed ∈ preferred refs, listed.sha = sha) : firstPreferred repo ref refs = .ok sha := by
  obtain ⟨first, rest, heq⟩ := List.exists_cons_of_ne_nil (mt preferred_eq_nil_iff.mp hne)
  rw [firstPreferred, heq, List.head?_cons]
  exact congrArg Except.ok (h first (by simp [heq]))

/-- The condition gives the commit that is meant. -/
theorem TipAgreed.meant (hdistinct : (refs.map ListedRef.name).Nodup)
    (h : TipAgreed ref refs) : Meant ref refs (firstPreferred repo ref refs) := by
  rcases h with rfl | ⟨target, ⟨hin, hkind⟩, hagree⟩
  · exact ⟨fun listed hlisted => absurd hlisted (by simp), fun _ listed hlisted =>
      absurd hlisted (by simp), fun sha hsha => by cases hsha⟩
  have hresult : firstPreferred repo ref refs = .ok target.sha :=
    firstPreferred_eq (List.ne_nil_of_mem hin) hagree
  have hsame : ∀ listed ∈ refs, listed.name = target.name → listed = target :=
    fun listed hlisted hname => List.inj_on_of_nodup_map hdistinct hlisted hin hname
  rw [hresult]
  constructor
  · intro listed hlisted hname
    rcases hkind with hbranch | ⟨hnobranch, -⟩
    · rw [hsame listed hlisted (hname.trans hbranch.symm)]
    · exact absurd hname (hnobranch listed hlisted)
  · intro hnobranch listed hlisted hname
    rcases hkind with hbranch | ⟨-, htag | ⟨hnotag, -⟩⟩
    · exact absurd hbranch (hnobranch target hin)
    · rw [hsame listed hlisted (hname.trans htag.symm)]
    · exact absurd hname (hnotag listed hlisted)
  · intro sha hsha
    refine ⟨target, hin, Except.ok.inj hsha, fun hlonger => ?_⟩
    rcases hkind with hbranch | ⟨-, htag | ⟨-, hnot⟩⟩
    · exact hlonger.2.1 hbranch
    · exact hlonger.2.2.1 htag
    · exact hnot hlonger

/-- Where the tips agree, every order of the lines gives the same result. -/
theorem TipAgreed.order (h : TipAgreed ref refs) (hperm : refs'.Perm refs) :
    firstPreferred repo ref refs' = firstPreferred repo ref refs := by
  rcases h with rfl | ⟨target, ⟨hin, -⟩, hagree⟩
  · rw [hperm.eq_nil]
  · have hall : ∀ l : List ListedRef, l.Perm refs → firstPreferred repo ref l = .ok target.sha := by
      intro l hl
      exact firstPreferred_eq (List.ne_nil_of_mem (hl.mem_iff.mpr hin)) fun listed hlisted =>
        hagree listed ((preferred_perm hl).mem_iff.mp hlisted)
    rw [hall refs' hperm, hall refs (.refl _)]

/-- Conversely, any preferred ref may come first. -/
theorem tipAgreed_of_meant {result : Except LauncherError String} (hmeant : Meant ref refs result)
    (horder : ∀ refs', refs'.Perm refs → firstPreferred repo ref refs' = result) :
    TipAgreed ref refs := by
  by_cases hnil : refs = []
  · exact .inl hnil
  have hpreferred : ∀ listed ∈ preferred refs, result = .ok listed.sha := by
    intro listed hlisted
    obtain ⟨refs', hperm, hhead⟩ := exists_head?_preferred hlisted
    rw [← horder refs' hperm, firstPreferred, hhead]
  have htarget : ∀ target, IsTarget ref refs target → result = .ok target.sha →
      TipAgreed ref refs := fun target htarget hresult =>
    .inr ⟨target, htarget, fun listed hlisted =>
      Except.ok.inj ((hpreferred listed hlisted).symm.trans hresult)⟩
  by_cases hbranch : ∃ listed ∈ refs, listed.name = "refs/heads/" ++ ref
  · obtain ⟨target, hin, hname⟩ := hbranch
    exact htarget target ⟨hin, .inl hname⟩ (hmeant.branch target hin hname)
  · have hnobranch : ∀ listed ∈ refs, listed.name ≠ "refs/heads/" ++ ref :=
      fun listed hlisted hname => hbranch ⟨listed, hlisted, hname⟩
    by_cases htag : ∃ listed ∈ refs, listed.name = "refs/tags/" ++ ref
    · obtain ⟨target, hin, hname⟩ := htag
      exact htarget target ⟨hin, .inr ⟨hnobranch, .inl hname⟩⟩
        (hmeant.tag hnobranch target hin hname)
    · have hnotag : ∀ listed ∈ refs, listed.name ≠ "refs/tags/" ++ ref :=
        fun listed hlisted hname => htag ⟨listed, hlisted, hname⟩
      obtain ⟨first, rest, heq⟩ := List.exists_cons_of_ne_nil (mt preferred_eq_nil_iff.mp hnil)
      have hresult := hpreferred first (by simp [heq])
      obtain ⟨target, hin, hsha, hnot⟩ := hmeant.notLonger first.sha hresult
      exact htarget target ⟨hin, .inr ⟨hnobranch, .inr ⟨hnotag, hnot⟩⟩⟩ (hsha ▸ hresult)

/-- A name resolves to its own ref, whatever the order of the lines, if and only if the
refs of the preferred kind all have the commit of that ref. -/
theorem resolvesToItself_iff (lower : String → String) (timeoutText repo ref : String)
    (filtered everything : Listing) :
    ResolvesToItself lower timeoutText repo ref filtered.refs everything.refs ↔
      TipAgreed ref (effective filtered.refs everything.refs) := by
  have hformed : ∀ (listing : Listing) (refs : List ListedRef), refs.Perm listing.refs →
      ∀ listed ∈ refs, listed.WellFormed := fun listing refs hperm listed hlisted =>
    listing.wellFormed listed (hperm.mem_iff.mp hlisted)
  constructor
  · rintro ⟨result, hmeant, horder⟩
    have hfirst : ∀ refs, refs.Perm (effective filtered.refs everything.refs) →
        firstPreferred repo ref refs = result := by
      intro refs hperm
      obtain ⟨filtered', everything', hf, he, rfl⟩ := exists_effective hperm
      rw [← horder filtered' everything' hf he (answering filtered' everything') 0 1 (by omega)
        (answered_answering filtered' everything')]
      exact (resolveRef_answered (hformed filtered _ hf) (hformed everything _ he) (by omega)
        (answered_answering filtered' everything')).symm
    exact tipAgreed_of_meant hmeant hfirst
  · intro hagreed
    have hdistinct : ((effective filtered.refs everything.refs).map ListedRef.name).Nodup := by
      rw [effective]
      split
      · exact everything.distinct
      · exact filtered.distinct
    refine ⟨firstPreferred repo ref (effective filtered.refs everything.refs),
      hagreed.meant hdistinct, ?_⟩
    intro filtered' everything' hf he git attempt retries hattempt hanswered
    rw [resolveRef_answered (hformed filtered _ hf) (hformed everything _ he) hattempt hanswered]
    exact hagreed.order (effective_perm hf he)

/-- A name without any space. -/
theorem ListedRef.wellFormed_of_all {listed : ListedRef} (hsha : isSha listed.sha.toList = true)
    (hnamed : listed.name ≠ "")
    (hall : (listed.name.toList.all fun c => !Text.isLineBreak c && !Text.isSpace c) = true) :
    listed.WellFormed := by
  have hchar : ∀ c ∈ listed.name.toList, Text.isLineBreak c = false ∧ Text.isSpace c = false :=
    fun c hc => by simpa using List.all_eq_true.mp hall c hc
  refine ⟨hsha, hnamed, fun c hc => (hchar c hc).1, fun c hc => ?_, fun c hc => ?_⟩
  · exact (hchar c (List.mem_of_mem_head? hc)).2
  · exact (hchar c (List.mem_of_mem_getLast? hc)).2

/-- A branch that ends in `main`. -/
def longerBranch : ListedRef :=
  ⟨String.ofList (List.replicate 40 'a'), "refs/heads/feature/main"⟩

/-- The branch that is meant. -/
def mainBranch : ListedRef := ⟨String.ofList (List.replicate 40 'b'), "refs/heads/main"⟩

/-- `main` behind a longer branch that ends in it. -/
def featureFirst : Listing where
  refs := [longerBranch, mainBranch]
  wellFormed := by
    intro listed hlisted
    simp only [List.mem_cons, List.not_mem_nil, or_false] at hlisted
    rcases hlisted with rfl | rfl
    · exact ListedRef.wellFormed_of_all (by decide +kernel) (by decide) (by decide +kernel)
    · exact ListedRef.wellFormed_of_all (by decide +kernel) (by decide) (by decide +kernel)
  distinct := by decide +kernel

/-- The commit of the longer branch is returned. -/
theorem longer_branch_resolved :
    resolveRef id "" (answering featureFirst.refs featureFirst.refs) "a2aproject/a2a-python" "main"
        3 = .ok longerBranch.sha ∧
      ¬ ResolvesToItself id "" "a2aproject/a2a-python" "main" featureFirst.refs
        featureFirst.refs := by
  have hrun : resolveRef id "" (answering featureFirst.refs featureFirst.refs)
      "a2aproject/a2a-python" "main" 3 = .ok longerBranch.sha := by
    decide +kernel
  refine ⟨hrun, ?_⟩
  rintro ⟨result, hmeant, horder⟩
  have hresult := horder _ _ (.refl _) (.refl _) _ 0 3 (by omega)
    (answered_answering featureFirst.refs featureFirst.refs)
  have hbranch := hmeant.branch mainBranch (by simp [effective, featureFirst]) rfl
  rw [hrun, hbranch] at hresult
  exact absurd (Except.ok.inj hresult) (by decide +kernel)

end Resolution

end A2aItk.Launcher
