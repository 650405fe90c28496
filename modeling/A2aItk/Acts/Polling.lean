import A2aItk.Acts.Exchanges
import Mathlib.Tactic.NormNum
import Mathlib.Tactic.Ring

/-!
# Polls

`repeat.until` over a sequence of replies: how often the step is dispatched again, how
long the runner waits in between, and what the poll reports.

## Implementation notes

A poll is watched from a world that answers the requests in turn and writes down
everything it is asked to do. A condition is satisfied by a value that is there and
passes the test; a path that reads nothing has no such value.
-/

namespace A2aItk.Acts

open Python

/-- A condition is satisfied by a value that is there and passes the test. -/
def Satisfies (py : Interpreter) (expression response : Value) : Prop :=
  ∃ path test actual, States expression path test ∧
    readPath response path = .ok (some actual) ∧ test.holds py actual = true

/-- The path of the condition reads nothing in a response. -/
def ReadsNothing (expression response : Value) : Prop :=
  ∃ path test, States expression path test ∧ readPath response path = .ok none

section World

/-- What a poll asks of the world. -/
inductive PollEvent
  | request (operation : Operation) (params : Fields) (headers : Headers)
  | sleep (seconds : ℚ)

/-- How many requests were sent. -/
def requestsSent : List PollEvent → ℕ
  | [] => 0
  | .request _ _ _ :: log => requestsSent log + 1
  | .sleep _ :: log => requestsSent log

@[simp] theorem requestsSent_append (log log' : List PollEvent) :
    requestsSent (log ++ log') = requestsSent log + requestsSent log' := by
  induction log with
  | nil => simp [requestsSent]
  | cons event log ih =>
      cases event with
      | request operation params headers =>
          simp only [List.cons_append, requestsSent, ih]
          omega
      | sleep seconds => simp only [List.cons_append, requestsSent, ih]

/-- The runner in a world that answers request number `n`, from 1 on, with `replies n`. -/
def Runner.answering (runner : Runner (List PollEvent)) (replies : ℕ → WireResponse) :
    Runner (List PollEvent) :=
  { runner with
    dispatch := fun operation params headers log =>
      .ok (replies (requestsSent log + 1)) (log ++ [.request operation params headers])
    sleep := fun seconds log => log ++ [.sleep seconds] }

/-- Attempts `attempt` to `attempt + n - 1`, each a request and the delay after it. -/
def attemptsLog (request : PollEvent) (delay : ℕ → ℚ) (attempt n : ℕ) : List PollEvent :=
  (List.range' attempt n).flatMap fun i => [request, .sleep (delay i)]

/-- A poll of `k` attempts: `k` requests, and the `k - 1` delays between them. -/
def pollLog (request : PollEvent) (delay : ℕ → ℚ) (k : ℕ) : List PollEvent :=
  attemptsLog request delay 1 (k - 1) ++ [request]

theorem attemptsLog_succ (request : PollEvent) (delay : ℕ → ℚ) (attempt n : ℕ) :
    attemptsLog request delay attempt (n + 1) =
      [request, .sleep (delay attempt)] ++ attemptsLog request delay (attempt + 1) n := by
  simp only [attemptsLog, List.range'_succ, List.flatMap_cons]

/-- Only the delays after an attempt count. -/
theorem pollLog_congr {request : PollEvent} {delay delay' : ℕ → ℚ} {k : ℕ}
    (h : ∀ attempt, 1 ≤ attempt → delay attempt = delay' attempt) :
    pollLog request delay k = pollLog request delay' k := by
  rw [pollLog, pollLog, attemptsLog, attemptsLog]
  refine congrArg (· ++ [request]) (List.flatMap_congr fun attempt hattempt => ?_)
  rw [h attempt (List.mem_range'_1.mp hattempt).1]

end World

section Ends

/-- Attempt `k` ends a poll that goes from a first attempt up to a limit: the attempts before
it came to nothing, and it either succeeded or was the last. -/
structure PollEnds (verdict : ℕ → Except Exception Bool) (attempt limit k : ℕ)
    (converged : Bool) : Prop where
  ge : attempt ≤ k
  le : k ≤ limit
  before : ∀ n, attempt ≤ n → n < k → verdict n = .ok false
  last : verdict k = .ok converged
  stop : converged = true ∨ k = limit

namespace PollEnds

variable {verdict : ℕ → Except Exception Bool} {attempt limit k : ℕ} {converged : Bool}

theorem eq_first (h : PollEnds verdict attempt limit k converged)
    (hne : verdict attempt ≠ .ok false) : k = attempt := by
  by_contra hk
  have hlt : attempt < k := Nat.lt_of_le_of_ne h.ge (Ne.symm hk)
  exact hne (h.before attempt le_rfl hlt)

/-- A first attempt that settles nothing is passed over. -/
theorem succ_iff (hfirst : verdict attempt = .ok false) (hlt : attempt < limit) :
    PollEnds verdict attempt limit k converged ↔
      PollEnds verdict (attempt + 1) limit k converged := by
  constructor
  · intro h
    have hne : k ≠ attempt := by
      rintro rfl
      have hlast := h.last
      rw [hfirst] at hlast
      cases hlast
      rcases h.stop with hstop | hstop
      · cases hstop
      · omega
    have hge := h.ge
    refine ⟨by omega, h.le, ?_, h.last, h.stop⟩
    intro n hn hnk
    exact h.before n (by omega) hnk
  · intro h
    have hge := h.ge
    refine ⟨by omega, h.le, ?_, h.last, h.stop⟩
    intro n hn hnk
    by_cases hfirstn : n = attempt
    · rw [hfirstn]
      exact hfirst
    · exact h.before n (by omega) hnk

end PollEnds

end Ends

namespace Runner

variable {runner : Runner (List PollEvent)} {replies : ℕ → WireResponse}
variable {operation : Operation} {params : Fields} {expression : Value}

/-- What evaluating the condition on a reply comes to. -/
def verdict (runner : Runner (List PollEvent)) (replies : ℕ → WireResponse) (expression : Value)
    (n : ℕ) : Except Exception Bool :=
  evaluateUntil runner.py expression (replies n).payload

section Attempts

variable {delayMs left attempt : ℕ} {backoff : Backoff} {log : List PollEvent}

theorem dispatch_answering (runner : Runner (List PollEvent)) (replies : ℕ → WireResponse)
    (operation : Operation) (params : Fields) (hlog : requestsSent log + 1 = attempt) :
    (runner.answering replies).dispatch operation params (runner.answering replies).headers log =
      .ok (replies attempt) (log ++ [.request operation params runner.headers]) := by
  subst hlog
  rfl

/-- A condition that cannot be evaluated ends the poll. -/
theorem attempts_of_error {e : Exception} (hlog : requestsSent log + 1 = attempt)
    (h : runner.verdict replies expression attempt = .error e) :
    (runner.answering replies).attempts operation params expression delayMs backoff left attempt
        log = .error e (log ++ [.request operation params runner.headers]) := by
  unfold attempts
  rw [Effects.bind_apply_of_ok (dispatch_answering runner replies operation params hlog)]
  apply Effects.bind_apply_of_error
  exact Effects.lift_apply_eq_error_iff.mpr ⟨h, rfl⟩

/-- A condition that holds ends the poll. -/
theorem attempts_of_true (hlog : requestsSent log + 1 = attempt)
    (h : runner.verdict replies expression attempt = .ok true) :
    (runner.answering replies).attempts operation params expression delayMs backoff left attempt
        log = .ok (replies attempt, attempt, true)
          (log ++ [.request operation params runner.headers]) := by
  unfold attempts
  rw [Effects.bind_apply_of_ok (dispatch_answering runner replies operation params hlog)]
  exact Effects.bind_apply_of_ok (Effects.lift_apply_eq_ok_iff.mpr ⟨h, rfl⟩)

/-- After the last attempt there is no delay. -/
theorem attempts_zero_of_false (hlog : requestsSent log + 1 = attempt)
    (h : runner.verdict replies expression attempt = .ok false) :
    (runner.answering replies).attempts operation params expression delayMs backoff 0 attempt
        log = .ok (replies attempt, attempt, false)
          (log ++ [.request operation params runner.headers]) := by
  unfold attempts
  rw [Effects.bind_apply_of_ok (dispatch_answering runner replies operation params hlog)]
  exact Effects.bind_apply_of_ok (Effects.lift_apply_eq_ok_iff.mpr ⟨h, rfl⟩)

/-- Any other attempt is followed by its delay and the attempts left. -/
theorem attempts_succ_of_false (hlog : requestsSent log + 1 = attempt)
    (h : runner.verdict replies expression attempt = .ok false) :
    (runner.answering replies).attempts operation params expression delayMs backoff (left + 1)
        attempt log =
      (runner.answering replies).attempts operation params expression delayMs backoff left
        (attempt + 1)
        (log ++ ([.request operation params runner.headers] ++
          [.sleep (delaySeconds delayMs attempt backoff)])) := by
  rw [attempts, Effects.bind_apply_of_ok
    (dispatch_answering runner replies operation params hlog)]
  refine (Effects.bind_apply_of_ok (Effects.lift_apply_eq_ok_iff.mpr ⟨h, rfl⟩)).trans ?_
  rw [← List.append_assoc log [_] [_]]
  rfl

end Attempts

/-- What a poll that ends at attempt `k` reports and writes down. -/
def Reports (runner : Runner (List PollEvent)) (replies : ℕ → WireResponse)
    (operation : Operation) (params : Fields) (delayMs : ℕ) (backoff : Backoff)
    (attempt k : ℕ) (log log' : List PollEvent) (response : WireResponse) : Prop :=
  response = replies k ∧
    log' = log ++ (attemptsLog (.request operation params runner.headers)
      (fun i => delaySeconds delayMs i backoff) attempt (k - attempt) ++
        [.request operation params runner.headers])

section Runs

variable {delayMs left attempt k : ℕ} {backoff : Backoff} {log log' : List PollEvent}
variable {response : WireResponse} {converged : Bool}

theorem reports_first :
    runner.Reports replies operation params delayMs backoff attempt attempt log log' response ↔
      response = replies attempt ∧
        log' = log ++ [.request operation params runner.headers] := by
  simp only [Reports, Nat.sub_self, attemptsLog, List.range'_zero, List.flatMap_nil,
    List.nil_append]

theorem reports_succ (hlt : attempt < k) :
    runner.Reports replies operation params delayMs backoff attempt k log log' response ↔
      runner.Reports replies operation params delayMs backoff (attempt + 1) k
        (log ++ ([.request operation params runner.headers] ++
          [.sleep (delaySeconds delayMs attempt backoff)])) log' response := by
  have hcount : k - attempt = k - (attempt + 1) + 1 := by omega
  simp only [Reports, hcount, attemptsLog_succ, List.append_assoc]
  rfl

/-- A poll whose first attempt succeeds or raises. -/
theorem attempts_eq_ok_iff_of_ne (hlog : requestsSent log + 1 = attempt)
    (hne : runner.verdict replies expression attempt ≠ .ok false) :
    (runner.answering replies).attempts operation params expression delayMs backoff left attempt
        log = .ok (response, k, converged) log' ↔
      PollEnds (runner.verdict replies expression) attempt (attempt + left) k converged ∧
      runner.Reports replies operation params delayMs backoff attempt k log log' response := by
  cases heval : runner.verdict replies expression attempt with
  | error e =>
      rw [attempts_of_error hlog heval]
      constructor
      · intro h
        cases h
      · rintro ⟨hends, -⟩
        have hlast := hends.last
        rw [hends.eq_first hne] at hlast
        exact absurd (heval.symm.trans hlast) (by simp)
  | ok b =>
      obtain rfl : b = true := by
        cases b with
        | true => rfl
        | false => exact absurd heval hne
      rw [attempts_of_true hlog heval]
      constructor
      · intro h
        cases h
        refine ⟨⟨le_rfl, by omega, ?_, heval, .inl rfl⟩, reports_first.mpr ⟨rfl, rfl⟩⟩
        intro n hge hlt
        omega
      · rintro ⟨hends, hreports⟩
        obtain rfl := hends.eq_first hne
        obtain ⟨rfl, rfl⟩ := reports_first.mp hreports
        have hlast := hends.last
        simp only [heval, Except.ok.injEq] at hlast
        rw [hlast]

/-- A poll returns at the attempt that ends it. -/
theorem attempts_eq_ok_iff (hlog : requestsSent log + 1 = attempt) :
    (runner.answering replies).attempts operation params expression delayMs backoff left attempt
        log = .ok (response, k, converged) log' ↔
      PollEnds (runner.verdict replies expression) attempt (attempt + left) k converged ∧
      runner.Reports replies operation params delayMs backoff attempt k log log' response := by
  induction left generalizing attempt log with
  | zero =>
      by_cases heval : runner.verdict replies expression attempt = .ok false
      swap
      · exact attempts_eq_ok_iff_of_ne hlog heval
      rw [attempts_zero_of_false hlog heval]
      constructor
      · intro h
        cases h
        refine ⟨⟨le_rfl, le_rfl, ?_, heval, .inr rfl⟩, reports_first.mpr ⟨rfl, rfl⟩⟩
        intro n hge hlt
        omega
      · rintro ⟨hends, hreports⟩
        obtain rfl : k = attempt := le_antisymm hends.le hends.ge
        obtain ⟨rfl, rfl⟩ := reports_first.mp hreports
        have hlast := hends.last
        simp only [heval, Except.ok.injEq] at hlast
        rw [hlast]
  | succ left ih =>
      by_cases heval : runner.verdict replies expression attempt = .ok false
      swap
      · exact attempts_eq_ok_iff_of_ne hlog heval
      have hlog' : requestsSent (log ++ ([.request operation params runner.headers] ++
          [.sleep (delaySeconds delayMs attempt backoff)])) + 1 = attempt + 1 := by
        simp only [requestsSent_append, requestsSent]
        omega
      have hlimit : attempt + 1 + left = attempt + (left + 1) := by omega
      have hsucc : PollEnds (runner.verdict replies expression) attempt (attempt + (left + 1)) k
            converged ↔
          PollEnds (runner.verdict replies expression) (attempt + 1) (attempt + (left + 1)) k
            converged :=
        PollEnds.succ_iff heval (by omega)
      rw [attempts_succ_of_false hlog heval, ih hlog', hlimit, hsucc]
      apply and_congr_right
      intro hends
      exact (reports_succ hends.ge).symm

end Runs

end Runner

section Asked

/-- Reply number `n` is asked for: no reply before it was satisfactory. -/
structure Asked (sat : ℕ → Prop) (limit n : ℕ) : Prop where
  ge : 1 ≤ n
  le : n ≤ limit
  before : ∀ j, 1 ≤ j → j < n → ¬sat j

/-- Reply number `k` is the first satisfactory one, or the last of all. -/
structure LastAsked (sat : ℕ → Prop) (limit k : ℕ) : Prop extends Asked sat limit k where
  stop : sat k ∨ k = limit

variable {sat : ℕ → Prop} {limit k : ℕ}

theorem Asked.le_last {n : ℕ} (hn : Asked sat limit n) (hk : LastAsked sat limit k) : n ≤ k := by
  by_contra hlt
  have hle := hn.le
  rcases hk.stop with hsat | hlimit
  · exact hn.before k hk.ge (by omega) hsat
  · omega

theorem LastAsked.sat_iff (hk : LastAsked sat limit k) :
    sat k ↔ ∃ n, 1 ≤ n ∧ n ≤ limit ∧ sat n := by
  constructor
  · intro hsat
    exact ⟨k, hk.ge, hk.le, hsat⟩
  · rintro ⟨n, hge, hle, hsat⟩
    rcases hk.stop with hstop | hlimit
    · exact hstop
    · obtain hlt | rfl : n < k ∨ n = k := by omega
      · exact absurd hsat (hk.before n hge hlt)
      · exact hsat

/-- Some reply is the last one asked for. -/
theorem exists_lastAsked (sat : ℕ → Prop) (hlimit : 1 ≤ limit) : ∃ k, LastAsked sat limit k := by
  classical
  have hexists : ∃ k, 1 ≤ k ∧ (sat k ∨ k = limit) := ⟨limit, hlimit, .inr rfl⟩
  obtain ⟨hge, hstop⟩ := Nat.find_spec hexists
  refine ⟨Nat.find hexists, ⟨hge, Nat.find_min' hexists ⟨hlimit, .inr rfl⟩, ?_⟩, hstop⟩
  intro j hj hlt hsat
  exact Nat.find_min hexists hlt ⟨hj, .inl hsat⟩

end Asked

section Documented

variable (runner : Runner (List PollEvent)) (replies : ℕ → WireResponse)
variable (operation : Operation) (params : Fields) (block : Repeat) (expression : Value)

/-- How often a block lets its step be dispatched. -/
def Repeat.attempts (block : Repeat) : ℕ := block.maxAttempts.getD 10

theorem Repeat.one_le_attempts (block : Repeat) : 1 ≤ block.attempts := by
  unfold Repeat.attempts
  cases hmax : block.maxAttempts with
  | none => simp
  | some n => exact block.maxAttemptsPositive n hmax

/-- The seconds a block declares between attempts; one where it declares none. -/
def Repeat.seconds (block : Repeat) : ℚ :=
  match block.delayMs with
  | some ms => ms / 1000
  | none => 1

/-- The delay a block declares after an attempt: the same each time, as many as there were
attempts, or twice the one before. -/
def Repeat.delay (block : Repeat) : ℕ → ℚ
  | 0 => block.seconds
  | attempt + 1 =>
      match block.backoff with
      | none | some .none => block.seconds
      | some .linear => (attempt + 1) * block.seconds
      | some .exponential =>
          if attempt = 0 then block.seconds else 2 * block.delay attempt

theorem Repeat.delay_of_fixed {block : Repeat} (h : block.backoff.getD .none = .none)
    (attempt : ℕ) : block.delay attempt = block.seconds := by
  cases attempt with
  | zero => rfl
  | succ attempt =>
      unfold Repeat.delay
      cases hbackoff : block.backoff with
      | none => rfl
      | some backoff =>
          rw [hbackoff, Option.getD_some] at h
          rw [h]

theorem Repeat.delay_of_exponential {block : Repeat} (h : block.backoff = some .exponential)
    (attempt : ℕ) : block.delay (attempt + 1) = 2 ^ attempt * block.seconds := by
  induction attempt with
  | zero => simp [Repeat.delay, h]
  | succ attempt ih =>
      have hstep : block.delay (attempt + 2) = 2 * block.delay (attempt + 1) := by
        rw [Repeat.delay, h]
        exact if_neg (Nat.succ_ne_zero attempt)
      rw [hstep, ih, pow_succ]
      ring

/-- The runner waits as declared. -/
theorem Repeat.delaySeconds_eq {block : Repeat} {attempt : ℕ} (hattempt : 1 ≤ attempt) :
    Runner.delaySeconds (block.delayMs.getD 1000) attempt (block.backoff.getD .none) =
      block.delay attempt := by
  have hseconds : ((block.delayMs.getD 1000 : ℕ) : ℚ) / 1000 = block.seconds := by
    unfold Repeat.seconds
    cases block.delayMs <;> norm_num
  obtain ⟨n, rfl⟩ := Nat.exists_eq_add_of_le' hattempt
  cases hbackoff : block.backoff.getD .none with
  | none =>
      rw [Repeat.delay_of_fixed hbackoff, ← hseconds]
      rfl
  | linear =>
      have hlinear : block.backoff = some .linear := by
        cases h : block.backoff <;> simp_all
      rw [Repeat.delay, hlinear, ← hseconds, Runner.delaySeconds]
      push_cast
      ring
  | exponential =>
      have hdoubling : block.backoff = some .exponential := by
        cases h : block.backoff <;> simp_all
      rw [Repeat.delay_of_exponential hdoubling, ← hseconds, Runner.delaySeconds,
        Nat.add_sub_cancel]
      ring

/-- Reply number `n` satisfies the condition. -/
def Runner.Satisfied (n : ℕ) : Prop := Satisfies runner.py expression (replies n).payload

/-- A poll as documented: it ends at the first reply that satisfies the condition, or with
the attempts, it waits as declared in between, it says whether such a reply came, and a
reply that has nothing at the path does not count as one. -/
structure PollsAsDocumented : Prop where
  run : ∃ k converged, LastAsked (runner.Satisfied replies expression) block.attempts k ∧
    (converged = true ↔
      ∃ n, 1 ≤ n ∧ n ≤ block.attempts ∧ runner.Satisfied replies expression n) ∧
    (runner.answering replies).dispatchRepeatedly operation params (some (block, expression))
      [] = .ok (replies k, k, converged)
        (pollLog (.request operation params runner.headers) block.delay k)
  missing : ∀ n, Asked (runner.Satisfied replies expression) block.attempts n →
    ReadsNothing expression (replies n).payload → runner.verdict replies expression n ≠ .ok true

/-- The expression states a condition whose path can be read in every reply asked for, and
reads something there if the condition is `!=`. -/
def ReadsThroughout : Prop :=
  ∃ path test, States expression path test ∧ test.Listed ∧
    ∀ n, Asked (runner.Satisfied replies expression) block.attempts n →
      ∃ actual, readPath (replies n).payload path = .ok actual ∧
        (test.isUnequal = true → actual ≠ none)

variable {runner replies operation params block expression}

theorem dispatchRepeatedly_eq_ok_iff {converged : Bool} {log : List PollEvent}
    {response : WireResponse} :
    (runner.answering replies).dispatchRepeatedly operation params (some (block, expression))
        [] = .ok (response, k, converged) log ↔
      PollEnds (runner.verdict replies expression) 1 block.attempts k converged ∧
        response = replies k ∧
        log = pollLog (.request operation params runner.headers) block.delay k := by
  have hlimit : 1 + (block.maxAttempts.getD 10 - 1) = block.attempts := by
    have hge := block.one_le_attempts
    unfold Repeat.attempts at *
    omega
  rw [← hlimit, ← pollLog_congr fun _ hattempt => Repeat.delaySeconds_eq hattempt]
  exact Runner.attempts_eq_ok_iff rfl

/-- Where something is read, or the condition is not `!=`, the runner's answer is whether
the condition is satisfied. -/
theorem answer_eq_true_iff {py : Interpreter} {response : Value} {path : String}
    {test : UntilTest} {actual : Option Value} (hstates : States expression path test)
    (hread : readPath response path = .ok actual)
    (hunequal : test.isUnequal = true → actual ≠ none) :
    test.answer py actual = true ↔ Satisfies py expression response := by
  constructor
  · intro h
    cases actual with
    | none => exact absurd rfl (hunequal h)
    | some v => exact ⟨path, test, v, hstates, hread, h⟩
  · rintro ⟨path', test', v, hstates', hread', hholds⟩
    obtain ⟨rfl, rfl⟩ := hstates.unique hstates'
    obtain rfl : actual = some v := Except.ok.inj (hread.symm.trans hread')
    exact hholds

/-- A poll does as documented exactly when its condition can be read in every reply it asks
for and, if it is `!=`, has something to compare there. -/
theorem polls_as_documented_iff (runner : Runner (List PollEvent)) (replies : ℕ → WireResponse)
    (operation : Operation) (params : Fields) (block : Repeat) (expression : Value) :
    PollsAsDocumented runner replies operation params block expression ↔
      ReadsThroughout runner replies block expression := by
  constructor
  · rintro ⟨⟨k, converged, hlast, -, hrun⟩, hmissing⟩
    obtain ⟨hends, -⟩ := dispatchRepeatedly_eq_ok_iff.mp hrun
    obtain ⟨path, test, hstates, hlisted⟩ := states_of_evaluateUntil hends.last
    refine ⟨path, test, hstates, hlisted, ?_⟩
    intro n hn
    obtain ⟨b, hverdict⟩ : ∃ b, runner.verdict replies expression n = .ok b := by
      obtain hlt | rfl : n < k ∨ n = k := Nat.lt_or_eq_of_le (hn.le_last hlast)
      · exact ⟨false, hends.before n hn.ge hlt⟩
      · exact ⟨converged, hends.last⟩
    obtain ⟨path', test', actual, hstates', -, hread, hanswer⟩ :=
      evaluateUntil_eq_ok_iff.mp hverdict
    obtain ⟨rfl, rfl⟩ := hstates.unique hstates'
    refine ⟨actual, hread, ?_⟩
    rintro hunequal rfl
    have hb : b = true := hanswer.symm.trans hunequal
    rw [hb] at hverdict
    exact hmissing n hn ⟨path, test, hstates, hread⟩ hverdict
  · rintro ⟨path, test, hstates, hlisted, hreads⟩
    have hverdict (n : ℕ) (hn : Asked (runner.Satisfied replies expression) block.attempts n) :
        ∃ b, runner.verdict replies expression n = .ok b ∧
          (b = true ↔ runner.Satisfied replies expression n) := by
      obtain ⟨actual, hread, hunequal⟩ := hreads n hn
      refine ⟨test.answer runner.py actual, ?_, answer_eq_true_iff hstates hread hunequal⟩
      exact evaluateUntil_eq_ok_iff.mpr ⟨path, test, actual, hstates, hlisted, hread, rfl⟩
    obtain ⟨k, hlast⟩ := exists_lastAsked (runner.Satisfied replies expression)
      block.one_le_attempts
    obtain ⟨converged, hk, hconverged⟩ := hverdict k hlast.toAsked
    refine ⟨⟨k, converged, hlast, hconverged.trans hlast.sat_iff, ?_⟩, ?_⟩
    · refine dispatchRepeatedly_eq_ok_iff.mpr ⟨⟨hlast.ge, hlast.le, ?_, hk, ?_⟩, rfl, rfl⟩
      · intro n hge hlt
        have hn : Asked (runner.Satisfied replies expression) block.attempts n :=
          ⟨hge, by have := hlast.le; omega, fun j hj hjn => hlast.before j hj (by omega)⟩
        obtain ⟨b, hb, hiff⟩ := hverdict n hn
        have hfalse : b ≠ true := fun htrue => hlast.before n hge hlt (hiff.mp htrue)
        rw [hb, Bool.eq_false_iff.mpr hfalse]
      · exact hlast.stop.imp hconverged.mpr id
    · rintro n hn ⟨path', test', hstates', hread⟩ htrue
      obtain ⟨b, hb, hiff⟩ := hverdict n hn
      obtain rfl : b = true := Except.ok.inj (hb.symm.trans htrue)
      obtain ⟨path'', test'', v, hstates'', hread'', -⟩ := hiff.mp rfl
      obtain ⟨rfl, rfl⟩ := hstates'.unique hstates''
      exact absurd (hread.symm.trans hread'') (by simp)

end Documented

section AbsentField

/-- A runner of which only the polling is of interest. -/
def pollingRunner : Runner (List PollEvent) where
  py := .plain
  binding := .jsonrpc
  dispatch _ _ _ := throw (.dispatchError "unanswered")
  dispatchRaw _ _ := throw (.dispatchError "unanswered")
  openStreams _ _ _ log := (fun _ => { events := [], ending := .closed }, log)
  readWebhook := none
  clock log := (0, log)
  sleep _ log := log
  newUuid log := ("0", log)
  environ _ := none
  vars := Dict.empty

/-- Wait for a task to leave `TASK_STATE_WORKING`. -/
def untilNotWorking : Repeat where
  untilText := "status.state != TASK_STATE_WORKING"
  maxAttempts := some 3
  untilNonempty := by decide
  maxAttemptsPositive := by simp

/-- An error reply has no state, and the poll takes it for one that differs. -/
theorem absent_state_is_not_working :
    ¬PollsAsDocumented pollingRunner (fun _ => { status := 404 }) .getTask []
      untilNotWorking (.str untilNotWorking.untilText) := by
  intro h
  have hstates : States (.str untilNotWorking.untilText) "status.state"
      (.unequal "TASK_STATE_WORKING".toList) := ⟨untilNotWorking.untilText, rfl, by decide⟩
  have hread : readPath (WireResponse.payload { status := 404 }) "status.state" = .ok none := rfl
  have hfirst : Asked (pollingRunner.Satisfied (fun _ => { status := 404 })
      (.str untilNotWorking.untilText)) untilNotWorking.attempts 1 :=
    ⟨le_rfl, by decide, fun j hge hlt => by omega⟩
  apply h.missing 1 hfirst ⟨_, _, hstates, hread⟩
  exact evaluateUntil_eq_ok_iff.mpr ⟨_, _, none, hstates, trivial, hread, rfl⟩

end AbsentField

end A2aItk.Acts
