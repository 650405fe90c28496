import A2aItk.Launcher.Checkouts
import A2aItk.Launcher.PinSafety

/-!
# The pins of one process balance

After any sequence of calls in one process, its pin file for a key exists where more
checkouts have kept their pin than releases have dropped one.

## Implementation notes

A checkout keeps its pin where it returns, and where fetcher or builder are interrupted: an
exception that is no `Exception` passes both handlers. The count of a process and its pin
file agree between calls, and that carries the accounting.
-/

namespace A2aItk.Launcher

open Python

variable {κ : Type*} [DecidableEq κ]

/-- The cache as a process finds it that has pinned nothing yet. -/
structure FreshProcess (κ : Type*) (me : Pid) where
  cache : Cache κ
  uncounted : ∀ key, cache.pinRefs me key = 0
  unpinned : ∀ key, (cache.pins key).get? me = none

/-- What has become of the calls for each key: the checkouts that returned and that were
interrupted, and the releases that dropped a pin. -/
structure Ledger (κ : Type*) where
  returned : κ → ℕ
  interrupted : κ → ℕ
  released : κ → ℕ

namespace Ledger

/-- Nothing has been called yet. -/
def empty : Ledger κ := ⟨fun _ => 0, fun _ => 0, fun _ => 0⟩

/-- More pins were kept than dropped. -/
def Outstanding (ledger : Ledger κ) (key : κ) : Prop :=
  ledger.released key < ledger.returned key + ledger.interrupted key

instance (ledger : Ledger κ) (key : κ) : Decidable (ledger.Outstanding key) :=
  inferInstanceAs (Decidable (_ < _))

/-- What one call adds to the account, by the exception it ended with if there was one. A release
counts only against a checkout that is outstanding. -/
def note (keyOf : String → String → κ) (me : Pid) (ledger : Ledger κ) :
    CacheCall → Except Raised Unit → Ledger κ
  | .checkout request _, .ok () =>
      let key := keyOf request.repo request.sha
      { ledger with returned := Function.update ledger.returned key (ledger.returned key + 1) }
  | .checkout request _, .error .interrupt =>
      let key := keyOf request.repo request.sha
      { ledger with
        interrupted := Function.update ledger.interrupted key (ledger.interrupted key + 1) }
  | .checkout .., .error _ => ledger
  | .release repo sha pid, _ =>
      let key := keyOf repo sha
      if pid.getD me = me ∧ ledger.Outstanding key then
        { ledger with released := Function.update ledger.released key (ledger.released key + 1) }
      else ledger

end Ledger

/-- The calls of a process, one after the other. -/
def play (keyOf : String → String → κ) (me : Pid) (s : Cache κ) (ledger : Ledger κ) :
    List CacheCall → Cache κ × Ledger κ
  | [] => (s, ledger)
  | call :: rest =>
      let outcome := perform keyOf me s call
      play keyOf me outcome.2 (ledger.note keyOf me call outcome.1) rest

/-- The process has the key pinned, in memory and on disk. -/
def Pinned (s : Cache κ) (me : Pid) (key : κ) : Prop :=
  0 < s.pinRefs me key ∧ ((s.pins key).get? me).isSome = true

/-- The count and the pin file are as before, and there is no new sentinel. -/
def Restored (s after : Cache κ) (me : Pid) (key : κ) : Prop :=
  after.pinRefs me key = s.pinRefs me key ∧
    (after.pins key).get? me = (s.pins key).get? me ∧
    (after.isBuilt key = true → s.isBuilt key = true)

/-- The pin file is there exactly while the process counts pins. -/
def Recorded (me : Pid) (s : Cache κ) : Prop :=
  ∀ key, ((s.pins key).get? me).isSome = true ↔ 0 < s.pinRefs me key

/-- The pins counted are those that were kept and not dropped. -/
def Counted (me : Pid) (s : Cache κ) (ledger : Ledger κ) : Prop :=
  ∀ key, s.pinRefs me key + ledger.released key = ledger.returned key + ledger.interrupted key

/-- What one call does to the pins. -/
structure KeepsAccount (keyOf : String → String → κ) (me : Pid) (s : Cache κ)
    (call : CacheCall) : Prop where
  raised : ∀ e, (perform keyOf me s call).1 = .error e → e ≠ .interrupt →
    e.isLauncherError = true ∧ Restored s (perform keyOf me s call).2 me (call.key keyOf)
  interrupted : (perform keyOf me s call).1 = .error .interrupt →
    (perform keyOf me s call).2.pinRefs me (call.key keyOf) =
        s.pinRefs me (call.key keyOf) + 1 ∧
      Pinned (perform keyOf me s call).2 me (call.key keyOf)
  returned : ∀ request work, call = .checkout request work →
    (perform keyOf me s call).1 = .ok () →
    (perform keyOf me s call).2.isBuilt (call.key keyOf) = true ∧
      Pinned (perform keyOf me s call).2 me (call.key keyOf)
  ineffective : ∀ repo sha pid, call = .release repo sha pid → pid.getD me = me →
    s.pinRefs me (call.key keyOf) = 0 → (perform keyOf me s call).2 = s
  others : ∀ key ≠ call.key keyOf,
    (∀ pid, (perform keyOf me s call).2.pinRefs pid key = s.pinRefs pid key) ∧
      (perform keyOf me s call).2.pins key = s.pins key

section Parts

variable {s : Cache κ} {me pid : Pid} {key k : κ}

/-- A process that has the key pinned already only counts. -/
theorem pin_of_pinned (h : 0 < s.pinRefs me key) :
    s.pin me key = s.setRefs me key (s.pinRefs me key + 1) := by
  rw [Cache.pin, if_pos (by omega)]

/-- Unpinning what is not pinned does nothing. -/
theorem unpin_of_unpinned (h : s.pinRefs me key = 0) : s.unpin me key = s := by
  simp [Cache.unpin, Cache.unpinCount, h]

/-- Only the last unpin removes the file. -/
theorem unpin_of_many (h : 1 < s.pinRefs me key) :
    s.unpin me key = s.setRefs me key (s.pinRefs me key - 1) := by
  have hpos : s.pinRefs me key ≠ 0 := by omega
  have hmany : s.pinRefs me key - 1 ≠ 0 := by omega
  simp [Cache.unpin, Cache.unpinCount, hpos, hmany]

/-- The count of the pinned key goes up by one. -/
theorem pinRefs_pin_self : (s.pin me key).pinRefs me key = s.pinRefs me key + 1 := by
  rcases Nat.eq_zero_or_pos (s.pinRefs me key) with hrefs | hrefs
  · rw [Cache.pin_of_unpinned s hrefs, hrefs]
    exact Cache.pinRefs_setRefs_self s 1
  · rw [pin_of_pinned hrefs]
    exact Cache.pinRefs_setRefs_self s _

/-- A pin changes no other count. -/
theorem pinRefs_pin_of_ne (h : (pid, k) ≠ (me, key)) :
    (s.pin me key).pinRefs pid k = s.pinRefs pid k := by
  rcases Nat.eq_zero_or_pos (s.pinRefs me key) with hrefs | hrefs
  · rw [Cache.pin_of_unpinned s hrefs]
    exact Cache.pinRefs_setRefs_of_ne s 1 h
  · rw [pin_of_pinned hrefs]
    exact Cache.pinRefs_setRefs_of_ne s _ h

/-- A pin touches no file of another key. -/
theorem pins_pin_of_ne (h : k ≠ key) : (s.pin me key).pins k = s.pins k := by
  rcases Nat.eq_zero_or_pos (s.pinRefs me key) with hrefs | hrefs
  · rw [Cache.pin_of_unpinned s hrefs]
    exact Function.update_of_ne h _ _
  · rw [pin_of_pinned hrefs]
    rfl

/-- The count of the key goes down, and stays at zero. -/
theorem pinRefs_unpin_self : (s.unpin me key).pinRefs me key = s.pinRefs me key - 1 := by
  rcases Nat.lt_trichotomy (s.pinRefs me key) 1 with hrefs | hrefs | hrefs
  · rw [unpin_of_unpinned (by omega)]
    omega
  · rw [Cache.unpin_of_single s hrefs, hrefs]
    exact Cache.pinRefs_setRefs_self s 0
  · rw [unpin_of_many hrefs]
    exact Cache.pinRefs_setRefs_self s _

/-- Unpinning changes no other count. -/
theorem pinRefs_unpin_of_ne (h : (pid, k) ≠ (me, key)) :
    (s.unpin me key).pinRefs pid k = s.pinRefs pid k := by
  rcases Nat.lt_trichotomy (s.pinRefs me key) 1 with hrefs | hrefs | hrefs
  · rw [unpin_of_unpinned (by omega)]
  · rw [Cache.unpin_of_single s hrefs]
    exact Cache.pinRefs_setRefs_of_ne s 0 h
  · rw [unpin_of_many hrefs]
    exact Cache.pinRefs_setRefs_of_ne s _ h

/-- Unpinning touches no file of another key. -/
theorem pins_unpin_of_ne (h : k ≠ key) : (s.unpin me key).pins k = s.pins k := by
  rcases Nat.lt_trichotomy (s.pinRefs me key) 1 with hrefs | hrefs | hrefs
  · rw [unpin_of_unpinned (by omega)]
  · rw [Cache.unpin_of_single s hrefs]
    exact Function.update_of_ne h _ _
  · rw [unpin_of_many hrefs]
    rfl

/-- Unpinning leaves the trees alone. -/
theorem trees_unpin : (s.unpin me key).trees = s.trees := by
  rcases Nat.lt_trichotomy (s.pinRefs me key) 1 with hrefs | hrefs | hrefs
  · rw [unpin_of_unpinned (by omega)]
  · rw [Cache.unpin_of_single s hrefs]
    rfl
  · rw [unpin_of_many hrefs]
    rfl

end Parts

namespace Recorded

variable {s : Cache κ} {me pid : Pid} {key : κ}

/-- Whatever is counted has its file, also after one more pin. -/
theorem pin (h : Recorded me s) (key : κ) : Recorded me (s.pin me key) := by
  intro k
  by_cases hk : k = key
  · subst hk
    rw [pinRefs_pin_self]
    refine iff_of_true ?_ (Nat.succ_pos _)
    rcases Nat.eq_zero_or_pos (s.pinRefs me k) with hrefs | hrefs
    · rw [Cache.pin_of_unpinned s hrefs, Cache.get?_writePin_self]
      rfl
    · rw [pin_of_pinned hrefs]
      exact (h k).mpr hrefs
  · rw [pins_pin_of_ne hk, pinRefs_pin_of_ne (by simp [hk])]
    exact h k

/-- The file goes with the last count. -/
theorem unpin (h : Recorded me s) (key : κ) : Recorded me (s.unpin me key) := by
  intro k
  by_cases hk : k = key
  · subst hk
    rw [pinRefs_unpin_self]
    rcases Nat.lt_trichotomy (s.pinRefs me k) 1 with hrefs | hrefs | hrefs
    · rw [unpin_of_unpinned (by omega), h k]
      omega
    · rw [Cache.unpin_of_single s hrefs]
      simp [Cache.unlinkPin, hrefs]
    · rw [unpin_of_many hrefs]
      exact iff_of_true ((h k).mpr (by omega)) (by omega)
  · rw [pins_unpin_of_ne hk, pinRefs_unpin_of_ne (by simp [hk])]
    exact h k

/-- Another process may lose its file. -/
theorem unlinkPin (h : Recorded me s) (hpid : pid ≠ me) (key : κ) :
    Recorded me (s.unlinkPin pid key) := by
  intro k
  rw [Cache.get?_unlinkPin_of_ne s (by simp [hpid.symm])]
  exact h k

/-- Right after a pin the tree is protected. -/
theorem pinned_pin (h : Recorded me s) : Pinned (s.pin me key) me key := by
  have hpos : 0 < (s.pin me key).pinRefs me key := by
    rw [pinRefs_pin_self]
    exact Nat.succ_pos _
  exact ⟨hpos, (h.pin key key).mpr hpos⟩

/-- Giving up takes back the pin, and the file where it was written for it. -/
theorem restored_giveUp (h : Recorded me s) :
    Restored s ((s.pin me key).giveUp me key) me key := by
  have hcount : ((s.pin me key).setTree key none).pinRefs me key = s.pinRefs me key + 1 :=
    pinRefs_pin_self
  refine ⟨?_, ?_, fun hbuilt => ?_⟩
  · rw [Cache.giveUp, pinRefs_unpin_self, hcount]
    rfl
  · rw [Cache.giveUp]
    rcases Nat.eq_zero_or_pos (s.pinRefs me key) with hrefs | hrefs
    · have hnone : (s.pins key).get? me = none := by
        rw [← Option.not_isSome_iff_eq_none, h key]
        omega
      rw [Cache.unpin_of_single _ (by rw [hcount, hrefs]), hnone]
      simp [Cache.unlinkPin]
    · rw [unpin_of_many (by omega), pin_of_pinned hrefs]
      rfl
  · rw [Cache.giveUp, Cache.isBuilt, trees_unpin] at hbuilt
    simp [Cache.setTree] at hbuilt

end Recorded

namespace Checked

variable {s : Cache κ} {me : Pid} {key : κ} {outcome : Except Raised Unit × Cache κ}

/-- Whatever a checkout ends with, counts and files agree. -/
theorem recorded (h : Checked s me key outcome) (hrecorded : Recorded me s) :
    Recorded me outcome.2 := by
  cases h with
  | reused hbuilt => exact hrecorded.pin key
  | built size hbuilt => exact hrecorded.pin key
  | interrupted tree => exact hrecorded.pin key
  | raised error hbuilt =>
      have hremoved : Recorded me ((s.pin me key).setTree key none) := hrecorded.pin key
      exact hremoved.unpin key

/-- A checkout touches the pins of its own key only. -/
theorem others (h : Checked s me key outcome) {k : κ} (hk : k ≠ key) :
    (∀ pid, outcome.2.pinRefs pid k = s.pinRefs pid k) ∧ outcome.2.pins k = s.pins k := by
  have hne : ∀ pid : Pid, (pid, k) ≠ (me, key) := fun pid => by simp [hk]
  have hpin : (∀ pid, (s.pin me key).pinRefs pid k = s.pinRefs pid k) ∧
      (s.pin me key).pins k = s.pins k :=
    ⟨fun pid => pinRefs_pin_of_ne (hne pid), pins_pin_of_ne hk⟩
  cases h with
  | reused hbuilt => exact hpin
  | built size hbuilt => exact hpin
  | interrupted tree => exact hpin
  | raised error hbuilt =>
      exact ⟨fun pid => (pinRefs_unpin_of_ne (hne pid)).trans (hpin.1 pid),
        (pins_unpin_of_ne hk).trans hpin.2⟩

/-- A checkout that raises has taken its own pin back. -/
theorem restored (h : Checked s me key outcome) (hrecorded : Recorded me s) {e : Raised}
    (he : outcome.1 = .error e) (hne : e ≠ .interrupt) :
    e.isLauncherError = true ∧ Restored s outcome.2 me key := by
  cases h with
  | reused hbuilt => cases he
  | built size hbuilt => cases he
  | interrupted tree => exact absurd (Except.error.inj he).symm hne
  | raised error hbuilt =>
      obtain rfl := Except.error.inj he
      exact ⟨rfl, hrecorded.restored_giveUp⟩

/-- One that is interrupted has not. -/
theorem kept (h : Checked s me key outcome) (hrecorded : Recorded me s)
    (he : outcome.1 = .error .interrupt) :
    outcome.2.pinRefs me key = s.pinRefs me key + 1 ∧ Pinned outcome.2 me key := by
  cases h with
  | reused hbuilt => cases he
  | built size hbuilt => cases he
  | interrupted tree => exact ⟨pinRefs_pin_self, hrecorded.pinned_pin⟩
  | raised error hbuilt => cases he

/-- One that returns has built the tree and keeps it pinned. -/
theorem handed (h : Checked s me key outcome) (hrecorded : Recorded me s)
    (he : outcome.1 = .ok ()) :
    outcome.2.isBuilt key = true ∧ outcome.2.pinRefs me key = s.pinRefs me key + 1 ∧
      Pinned outcome.2 me key := by
  cases h with
  | reused hbuilt => exact ⟨isBuilt_pin.trans hbuilt, pinRefs_pin_self, hrecorded.pinned_pin⟩
  | built size hbuilt =>
      exact ⟨by simp [Cache.isBuilt, Cache.setTree], pinRefs_pin_self, hrecorded.pinned_pin⟩
  | interrupted tree => cases he
  | raised error hbuilt => cases he

end Checked

section Calls

variable {keyOf : String → String → κ} {me : Pid} {s : Cache κ} {ledger : Ledger κ}

/-- Every call keeps counts and files together. -/
theorem recorded_perform (h : Recorded me s) (call : CacheCall) :
    Recorded me (perform keyOf me s call).2 := by
  cases call with
  | checkout request work => exact (checked_checkout work).recorded h
  | release repo sha pid =>
      simp only [perform, Cache.unpinFor]
      split
      · exact h.unpin _
      · exact h.unlinkPin ‹_› _

/-- Every call does to the pins what the account says of it. -/
theorem keepsAccount (h : Recorded me s) (call : CacheCall) :
    KeepsAccount keyOf me s call := by
  cases call with
  | checkout request work =>
      have hchecked : Checked s me (keyOf request.repo request.sha)
          (s.checkout me request (keyOf request.repo request.sha) work) := checked_checkout work
      exact {
        raised := fun e he hne => hchecked.restored h he hne
        interrupted := fun he => hchecked.kept h he
        returned := fun _ _ _ he => ⟨(hchecked.handed h he).1, (hchecked.handed h he).2.2⟩
        ineffective := by
          intro repo sha pid hcall
          cases hcall
        others := fun key hkey => hchecked.others hkey }
  | release repo sha pid =>
      refine ⟨?_, ?_, ?_, ?_, fun key hkey => ?_⟩
      · intro e he
        cases he
      · intro he
        cases he
      · intro request work hcall
        cases hcall
      · intro repo' sha' pid' hcall hpid hrefs
        obtain ⟨rfl, rfl, rfl⟩ := CacheCall.release.inj hcall
        simp only [perform, Cache.unpinFor, if_pos hpid]
        exact unpin_of_unpinned hrefs
      · simp only [perform, Cache.unpinFor]
        have hne : ∀ q : Pid, (q, key) ≠ (me, keyOf repo sha) := fun q => by
          simp [show key ≠ keyOf repo sha from hkey]
        split
        · exact ⟨fun q => pinRefs_unpin_of_ne (hne q), pins_unpin_of_ne hkey⟩
        · exact ⟨fun q => rfl, Function.update_of_ne hkey _ _⟩

omit [DecidableEq κ] in
/-- The account has an outstanding checkout just where the process has a pin. -/
theorem outstanding_iff (hcounted : Counted me s ledger) {key : κ} :
    ledger.Outstanding key ↔ 0 < s.pinRefs me key := by
  have hkey := hcounted key
  rw [Ledger.Outstanding]
  omega

/-- The count after a checkout is that of the account. -/
theorem counted_checkout (hrecorded : Recorded me s) (hcounted : Counted me s ledger)
    (request : Request) (work : Work) :
    Counted me (perform keyOf me s (.checkout request work)).2
      (ledger.note keyOf me (.checkout request work)
        (perform keyOf me s (.checkout request work)).1) := by
  intro k
  have hchecked : Checked s me (keyOf request.repo request.sha)
      (perform keyOf me s (.checkout request work)) := checked_checkout work
  generalize hkey : keyOf request.repo request.sha = key at hchecked
  have hk := hcounted k
  by_cases hself : k = key
  · subst hself
    cases hresult : (perform keyOf me s (.checkout request work)).1 with
    | ok u =>
        have hcount := (hchecked.handed hrecorded hresult).2.1
        simp only [Ledger.note, hkey, Function.update_self, hcount]
        omega
    | error e =>
        by_cases he : e = .interrupt
        · subst he
          have hcount := (hchecked.kept hrecorded hresult).1
          simp only [Ledger.note, hkey, Function.update_self, hcount]
          omega
        · have hcount := (hchecked.restored hrecorded hresult he).2.1
          cases e <;> first | exact absurd rfl he | exact hcount ▸ hk
  · rw [(hchecked.others hself).1 me]
    cases hresult : (perform keyOf me s (.checkout request work)).1 with
    | ok u => simpa [Ledger.note, hkey, hself] using hk
    | error e => cases e <;> simpa [Ledger.note, hkey, hself] using hk

/-- The count after a release is that of the account. -/
theorem counted_release (hcounted : Counted me s ledger) (repo sha : String)
    (pid : Option Pid) :
    Counted me (perform keyOf me s (.release repo sha pid)).2
      (ledger.note keyOf me (.release repo sha pid)
        (perform keyOf me s (.release repo sha pid)).1) := by
  intro k
  have hk := hcounted k
  simp only [perform, Cache.unpinFor, Ledger.note]
  by_cases hpid : pid.getD me = me
  · simp only [hpid, true_and, if_true]
    by_cases hself : k = keyOf repo sha
    · subst hself
      rw [pinRefs_unpin_self]
      by_cases hout : ledger.Outstanding (keyOf repo sha)
      · have hpos := (outstanding_iff hcounted).mp hout
        simp only [if_pos hout, Function.update_self]
        omega
      · have hzero := mt (outstanding_iff hcounted).mpr hout
        simp only [if_neg hout]
        omega
    · rw [pinRefs_unpin_of_ne (by simp [hself])]
      split
      · simpa [hself] using hk
      · exact hk
  · simp only [hpid, false_and, if_false]
    exact hk

/-- After any calls the counts are those of the account, by induction on the calls. -/
theorem accounts_play (hrecorded : Recorded me s) (hcounted : Counted me s ledger)
    (calls : List CacheCall) :
    Recorded me (play keyOf me s ledger calls).1 ∧
      Counted me (play keyOf me s ledger calls).1 (play keyOf me s ledger calls).2 := by
  induction calls generalizing s ledger with
  | nil => exact ⟨hrecorded, hcounted⟩
  | cons call rest ih =>
      rw [play]
      refine ih (recorded_perform hrecorded call) ?_
      cases call with
      | checkout request work => exact counted_checkout hrecorded hcounted request work
      | release repo sha pid => exact counted_release hcounted repo sha pid

end Calls

/-- The pins of a process balance after any calls, whatever fetcher and builder do, and every
further call keeps the account. -/
theorem pins_accounted (keyOf : String → String → κ) (me : Pid) (process : FreshProcess κ me)
    (calls : List CacheCall) :
    (∀ key, (((play keyOf me process.cache Ledger.empty calls).1.pins key).get? me).isSome =
        true ↔ (play keyOf me process.cache Ledger.empty calls).2.Outstanding key) ∧
      ∀ call, KeepsAccount keyOf me (play keyOf me process.cache Ledger.empty calls).1 call := by
  have hrecorded : Recorded me process.cache := by
    intro key
    rw [process.unpinned, process.uncounted]
    decide
  have hcounted : Counted me process.cache Ledger.empty := fun key => process.uncounted key
  obtain ⟨hrecorded', hcounted'⟩ :=
    @accounts_play κ _ keyOf me _ _ hrecorded hcounted calls
  exact ⟨fun key => (hrecorded' key).trans (outstanding_iff hcounted').symm,
    fun call => keepsAccount hrecorded' call⟩

section Interrupts

/-- Some request, for the run below. -/
def aRequest : Request := ⟨"owner/name", "0123", "itk"⟩

/-- The fetch is interrupted. -/
def interruptedFetch : Work := ⟨.error .interrupt, none, false, .ok (), none⟩

/-- A process that has not called anything yet. -/
def freshProcess : FreshProcess String 1 := ⟨emptyCache, fun _ => rfl, fun _ => rfl⟩

/-- An interrupt is no error of the launcher, and its pin stays. -/
theorem interrupt_keeps_pin :
    ¬ ∀ (keyOf : String → String → String) (process : FreshProcess String 1)
      (calls : List CacheCall) (call : CacheCall) (e : Raised),
      (perform keyOf 1 (play keyOf 1 process.cache Ledger.empty calls).1 call).1 = .error e →
        e.isLauncherError = true ∧
          Restored (play keyOf 1 process.cache Ledger.empty calls).1
            (perform keyOf 1 (play keyOf 1 process.cache Ledger.empty calls).1 call).2 1
            (call.key keyOf) := by
  intro h
  have hcall := h (fun repo _ => repo) freshProcess [] (.checkout aRequest interruptedFetch)
    .interrupt rfl
  exact absurd hcall.1 (by decide)

end Interrupts

end A2aItk.Launcher
