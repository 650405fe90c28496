import A2aItk.Launcher.TargetSpec
import A2aItk.Python.Joined

/-!
# Cache keys

`cache_key` of `launcher/cache.py` and the digests of `launcher/config.py` it folds in:
which checkouts share a key.

## Implementation notes

The digest function is a parameter. It may be any function to bytes, since a key holds
sixteen hexadecimal digits of its value and nothing else of it.
-/

namespace A2aItk.Launcher

open Python

/-- A file that a digest is taken of. -/
inductive DigestedFile
  | missing
  | unreadable
  | readable (data : List UInt8)

/-- What the digests are computed from. -/
structure DigestSources where
  /-- `ITK_IMAGE_DIGEST`, empty where it is unset -/
  itkImageDigest : String
  dockerfile : DigestedFile
  instructionProto : DigestedFile

section Digests

variable (sha256 : List UInt8 → List UInt8)

/-- `hexdigest()` of a digest. -/
def hexdigest (data : List UInt8) : List Char :=
  (sha256 data).flatMap fun byte =>
    [Text.hexDigit (byte.toNat / 16), Text.hexDigit (byte.toNat % 16)]

/-- The first digits of the digest of a file, or a word where there is none. -/
def fileDigest : DigestedFile → String
  | .readable data => "sha256_" ++ String.ofList ((hexdigest sha256 data).take 16)
  | .missing => "unpinned"
  | .unreadable => "unpinned"

/-- The digest of the image: the one that was given, or that of its Dockerfile. -/
def imageDigest (sources : DigestSources) : String :=
  let explicit := Text.strip sources.itkImageDigest.toList
  if explicit.isEmpty then fileDigest sha256 sources.dockerfile else String.ofList explicit

/-- The digest of the instruction proto. -/
def protoDigest (sources : DigestSources) : String :=
  fileDigest sha256 sources.instructionProto

/-- `_slug`. -/
def slug (repo : String) : String := repo.map fun c => if c = '/' then '_' else c

/-- `cache_key`: repository, commit and both digests, joined by an at sign. -/
def cacheKey (sources : DigestSources) (target : Checkout) : String :=
  slug target.repo ++ "@" ++ target.sha ++ "@" ++ imageDigest sha256 sources ++ "@" ++
    protoDigest sha256 sources

/-- The characters of a key. -/
theorem toList_cacheKey (sources : DigestSources) (target : Checkout) :
    (cacheKey sha256 sources target).toList =
      (slug target.repo).toList ++ '@' :: (target.sha.toList ++ '@' ::
        ((imageDigest sha256 sources).toList ++ '@' ::
          (protoDigest sha256 sources).toList)) := by
  simp [cacheKey]

/-- No digit is an at sign. -/
theorem hexDigit_ne_at {n : ℕ} (hn : n < 16) : Text.hexDigit n ≠ '@' := by
  revert n
  decide

/-- The proto digest, unlike the image digest, is always spelled by `config.py`. -/
theorem at_not_mem_fileDigest (file : DigestedFile) :
    '@' ∉ (fileDigest sha256 file).toList := by
  cases file with
  | missing => simp [fileDigest]
  | unreadable => simp [fileDigest]
  | readable data =>
      rw [fileDigest, String.toList_append, List.mem_append]
      rintro (hmem | hmem)
      · simp at hmem
      · rw [String.toList_ofList] at hmem
        obtain ⟨byte, -, hdigit⟩ := List.mem_flatMap.mp (List.mem_of_mem_take hmem)
        have hbyte : byte.toNat < 256 := byte.toNat_lt
        simp only [List.mem_cons, List.not_mem_nil, or_false] at hdigit
        rcases hdigit with hdigit | hdigit
        · exact hexDigit_ne_at (by omega) hdigit.symm
        · exact hexDigit_ne_at (by omega) hdigit.symm

end Digests

section Slugs

/-- Two repositories that differ in which of two characters is the slash and which an
underscore. -/
def Shifted (repo repo' : String) : Prop :=
  ∃ owner middle name,
    repo.toList = owner ++ '/' :: (middle ++ '_' :: name) ∧
      repo'.toList = owner ++ '_' :: (middle ++ '/' :: name)

/-- The slug of a name with one slash. -/
theorem slug_of_owner {repo : String} {owner name : List Char}
    (h : repo.toList = owner ++ '/' :: name) (howner : '/' ∉ owner) (hname : '/' ∉ name) :
    (slug repo).toList = owner ++ '_' :: name := by
  have hkeep : ∀ {s : List Char}, '/' ∉ s →
      s.map (fun c => if c = '/' then '_' else c) = s := by
    intro s hs
    calc
      s.map (fun c => if c = '/' then '_' else c) = s.map id := by
        apply List.map_congr_left
        intro c hc
        rw [if_neg fun heq : c = '/' => hs (heq ▸ hc), id]
      _ = s := List.map_id s
  rw [slug, String.toList_map, h, List.map_append, List.map_cons, hkeep howner, hkeep hname,
    if_pos rfl]

/-- Names that differ in where the slash stands have one slug. -/
theorem slug_eq_of_shifted {repo repo' : String} (h : Shifted repo repo') :
    slug repo = slug repo' := by
  obtain ⟨owner, middle, name, h, h'⟩ := h
  rw [← String.toList_inj, slug, slug, String.toList_map, String.toList_map, h, h']
  simp

/-- Names whose slash stands elsewhere are not the same name. -/
theorem Shifted.ne {repo repo' : String} (h : Shifted repo repo') : repo ≠ repo' := by
  rintro rfl
  obtain ⟨owner, middle, name, h, h'⟩ := h
  have hchar := (List.cons.inj (List.append_cancel_left (h.symm.trans h'))).1
  exact absurd hchar (by decide)

/-- Of two repositories with a slug in common, the one with the longer owner goes on where the
other has its slash. -/
theorem eq_or_shifted {repo repo' : String} {owner more name name' : List Char}
    (h : repo.toList = owner ++ '/' :: name) (h' : repo'.toList = owner ++ more ++ '/' :: name')
    (htail : '_' :: name = more ++ '_' :: name') : repo = repo' ∨ Shifted repo repo' := by
  cases more with
  | nil =>
      left
      obtain rfl : name = name' := (List.cons.inj htail).2
      rw [List.append_nil] at h'
      rw [← String.toList_inj, h, h']
  | cons c middle =>
      right
      obtain ⟨rfl, hname⟩ := List.cons.inj htail
      refine ⟨owner, middle, name', ?_, ?_⟩
      · rw [h, hname]
        rfl
      · rw [h', List.append_assoc, List.cons_append]

/-- No other different names have one slug. -/
theorem slug_eq_iff (target target' : Checkout) :
    slug target.repo = slug target'.repo ↔
      target.repo = target'.repo ∨ Shifted target.repo target'.repo ∨
        Shifted target'.repo target.repo := by
  constructor
  · intro h
    obtain ⟨owner, name, hrepo, howner, -, hname, -⟩ :=
      exists_owner_of_matchesRepo target.repo_matches
    obtain ⟨owner', name', hrepo', howner', -, hname', -⟩ :=
      exists_owner_of_matchesRepo target'.repo_matches
    rw [← String.toList_inj, slug_of_owner hrepo howner hname,
      slug_of_owner hrepo' howner' hname', List.append_eq_append_iff] at h
    rcases h with ⟨more, rfl, htail⟩ | ⟨more, rfl, htail⟩
    · exact (eq_or_shifted hrepo hrepo' htail).imp_right .inl
    · exact (eq_or_shifted hrepo' hrepo htail).imp Eq.symm .inr
  · rintro (h | h | h)
    · rw [h]
    · exact slug_eq_of_shifted h
    · exact (slug_eq_of_shifted h).symm

/-- A slug has no at sign. -/
theorem at_not_mem_slug (target : Checkout) : '@' ∉ (slug target.repo).toList := by
  obtain ⟨owner, name, hrepo, howner, howner', hname, hname'⟩ :=
    exists_owner_of_matchesRepo target.repo_matches
  rw [slug_of_owner hrepo howner hname]
  simp [howner', hname']

end Slugs

section Keys

variable {sha256 : List UInt8 → List UInt8} {sources sources' : DigestSources}
  {target target' : Checkout}

/-- The separators of a key can be told from its fields: the first two have no `@`, and
neither has the last. -/
theorem cacheKey_eq_iff :
    cacheKey sha256 sources target = cacheKey sha256 sources' target' ↔
      slug target.repo = slug target'.repo ∧ target.sha = target'.sha ∧
        imageDigest sha256 sources = imageDigest sha256 sources' ∧
        protoDigest sha256 sources = protoDigest sha256 sources' := by
  constructor
  · intro h
    rw [← String.toList_inj, toList_cacheKey, toList_cacheKey] at h
    obtain ⟨hslug, h⟩ := append_cons_inj (at_not_mem_slug target) (at_not_mem_slug target') h
    obtain ⟨hsha, h⟩ := append_cons_inj (not_mem_of_matchesSha target.sha_matches)
      (not_mem_of_matchesSha target'.sha_matches) h
    obtain ⟨himage, hproto⟩ := @append_separator_inj Char '@' _ _ _ _ [] _
      (at_not_mem_fileDigest sha256 sources.instructionProto)
      (at_not_mem_fileDigest sha256 sources'.instructionProto) h
    exact ⟨String.toList_inj.mp hslug, String.toList_inj.mp hsha, String.toList_inj.mp himage,
      String.toList_inj.mp hproto⟩
  · rintro ⟨hslug, hsha, himage, hproto⟩
    rw [cacheKey, cacheKey, hslug, hsha, himage, hproto]

end Keys

/-- A key stands for one repository, commit and pair of digests, except that repositories
with the slash and an underscore exchanged share theirs. -/
theorem keys_apart_iff (sha256 : List UInt8 → List UInt8) (sources sources' : DigestSources)
    (target target' : Checkout) :
    (cacheKey sha256 sources target = cacheKey sha256 sources' target' →
        target.repo = target'.repo ∧ target.sha = target'.sha ∧
          imageDigest sha256 sources = imageDigest sha256 sources' ∧
          protoDigest sha256 sources = protoDigest sha256 sources') ↔
      ¬ ((Shifted target.repo target'.repo ∨ Shifted target'.repo target.repo) ∧
        target.sha = target'.sha ∧
        imageDigest sha256 sources = imageDigest sha256 sources' ∧
        protoDigest sha256 sources = protoDigest sha256 sources') := by
  rw [cacheKey_eq_iff, slug_eq_iff]
  constructor
  · rintro h ⟨hshift, hrest⟩
    have hsame := (h ⟨.inr hshift, hrest⟩).1
    rcases hshift with hshift | hshift
    · exact hshift.ne hsame
    · exact hshift.ne hsame.symm
  · rintro h ⟨hrepo | hshift, hrest⟩
    · exact ⟨hrepo, hrest⟩
    · exact absurd ⟨hshift, hrest⟩ h

section Collision

/-- Some commit. -/
def anySha : String := "0123456789abcdef0123456789abcdef01234567"

/-- Two repositories of one slug. -/
def underscoredOwner : Checkout := ⟨"a_b/c", anySha, by decide +kernel⟩

/-- A repository whose name has an underscore. -/
def underscoredName : Checkout := ⟨"a/b_c", anySha, by decide +kernel⟩

theorem underscored_collide :
    ¬ ∀ (sha256 : List UInt8 → List UInt8) (sources sources' : DigestSources)
      (target target' : Checkout),
      cacheKey sha256 sources target = cacheKey sha256 sources' target' →
        target.repo = target'.repo ∧ target.sha = target'.sha ∧
          imageDigest sha256 sources = imageDigest sha256 sources' ∧
          protoDigest sha256 sources = protoDigest sha256 sources' := by
  intro h
  have hshifted : Shifted underscoredName.repo underscoredOwner.repo :=
    ⟨['a'], ['b'], ['c'], by decide, by decide⟩
  have hsame := (h (fun _ => []) ⟨"", .missing, .missing⟩ ⟨"", .missing, .missing⟩
    underscoredOwner underscoredName (cacheKey_eq_iff.mpr
      ⟨(slug_eq_of_shifted hshifted).symm, rfl, rfl, rfl⟩)).1
  exact absurd hsame (by decide)

end Collision

end A2aItk.Launcher
