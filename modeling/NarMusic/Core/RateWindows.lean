/-
  What the rate limiter allows in a whole run (`core/rate_limiter.cpp`).

  The bucket of a key is a fixed-window counter which sees the calls for its key and the
  cleanups (`answersTo_eq`).  From there on, the bound and the two-run property are the
  library's.  `cleanup` compares with `windowSeconds * 2` as an `int`: where that overflows
  it erases every bucket, also one whose window is open.
-/
import NarMusic.Core.RateLimiter
import NarMusic.Lib.FixedWindow

namespace NarMusic.RateLimiter

open Cxx FixedWindow

/-! ## One key -/

/-- The counter that a configuration sets up. -/
def rules (config : Config) : Rules ℕ where
  limit := config.maxRequests
  next count := int32 (count + 1)
  ended start now := config.windowSeconds ≤ elapsed start now
  swept start now := int32 (config.windowSeconds * 2) ≤ elapsed start now

def Bucket.window (bucket : Bucket) : Window ℕ := ⟨bucket.count, bucket.windowStart⟩

def slot (limiter : RateLimiter) (key : Str) : Option (Window ℕ) :=
  (limiter.buckets.lookup key).map Bucket.window

/-- What a key sees of a run. -/
def eventsFor (key : Str) : List Call → List (Event ℕ)
  | [] => []
  | .allow now k :: run => if k = key then .hit now :: eventsFor key run else eventsFor key run
  | .cleanup now :: run => .sweep now :: eventsFor key run

section
variable {limiter : RateLimiter} {now : ℕ} {key key' : Str}

theorem resets_eq : limiter.resets now key = (rules limiter.config).resets now (limiter.slot key) := by
  unfold resets slot
  cases limiter.buckets.lookup key <;> rfl

theorem allow_eq_hit (limiter : RateLimiter) (now : ℕ) (key : Str) :
    (limiter.allow now key).1 = ((rules limiter.config).hit now (limiter.slot key)).1 ∧
      (limiter.allow now key).2.slot key = some ((rules limiter.config).hit now (limiter.slot key)).2 := by
  unfold allow slot
  cases limiter.buckets.lookup key with
  | none => exact ⟨rfl, by simp [Rules.hit, Bucket.window]⟩
  | some bucket =>
    by_cases h : limiter.config.windowSeconds ≤ elapsed bucket.windowStart now
    · simp [Rules.hit, rules, Bucket.window, h]
    · simp only [Rules.hit, rules, Bucket.window, h, Option.map_some, decide_false, Bool.false_eq_true,
        if_false, AList.lookup_insert]
      exact ⟨rfl, trivial⟩

theorem slot_allow_ne (h : key' ≠ key) : (limiter.allow now key').2.slot key = limiter.slot key := by
  unfold allow slot
  cases limiter.buckets.lookup key' with
  | none => simp [AList.lookup_insert_ne h.symm]
  | some bucket =>
    by_cases hw : limiter.config.windowSeconds ≤ elapsed bucket.windowStart now
    · simp [hw, AList.lookup_insert_ne h.symm]
    · simp [hw, AList.lookup_insert_ne h.symm]

@[simp] theorem config_allow : (limiter.allow now key).2.config = limiter.config := by
  unfold allow
  cases limiter.buckets.lookup key with
  | none => rfl
  | some bucket =>
    by_cases hw : limiter.config.windowSeconds ≤ elapsed bucket.windowStart now
    · simp [hw]
    · simp [hw]

theorem slot_cleanup :
    (limiter.cleanup now).slot key = (rules limiter.config).sweep now (limiter.slot key) := by
  have hlookup : (limiter.cleanup now).buckets.lookup key =
      (limiter.buckets.lookup key).filter fun b => !expired limiter.config now b := by
    ext bucket
    rw [← Option.mem_def, ← Option.mem_def, AList.mem_lookup_iff, Option.mem_filter_iff,
      AList.mem_lookup_iff]
    exact List.mem_filter
  unfold slot
  rw [hlookup]
  cases limiter.buckets.lookup key with
  | none => rfl
  | some bucket =>
    simp only [Rules.sweep, Option.map_some, Option.filter_some, rules, Bucket.window, expired]
    split_ifs <;> rfl

end

/-- What a counter answers, as an answer to a call for `key`. -/
def toAnswer (key : Str) (o : Outcome ℕ) : Answer := ⟨o.now, key, o.allowed, o.reset⟩

/-- **The answers for one key** are those of its own counter. -/
theorem answersTo_eq (limiter : RateLimiter) (key : Str) (run : List Call) :
    limiter.answersTo key run =
      ((rules limiter.config).outcomes (limiter.slot key) (eventsFor key run)).map (toAnswer key) := by
  induction run generalizing limiter with
  | nil => rfl
  | cons call run ih =>
    cases call with
    | allow now k =>
      have hih := ih (limiter.allow now k).2
      unfold answersTo at hih ⊢
      by_cases hk : k = key
      · subst hk
        obtain ⟨hallowed, hslot⟩ := allow_eq_hit limiter now k
        rw [config_allow, hslot] at hih
        simp only [answers, eventsFor, Rules.outcomes, Rules.step, resets_eq, hallowed,
          List.filter_cons, List.map_cons, if_true, decide_true, hih]
        rfl
      · rw [config_allow, slot_allow_ne hk] at hih
        simpa [answers, eventsFor, hk] using hih
    | cleanup now =>
      have hih := ih (limiter.cleanup now)
      rw [slot_cleanup] at hih
      exact hih

theorem hits_eventsFor (key : Str) (run : List Call) :
    hits (eventsFor key run) = (callsFor key run).length := by
  induction run with
  | nil => rfl
  | cons call run ih =>
    cases call with
    | allow now k =>
      by_cases hk : k = key
      · simpa [eventsFor, callsFor, hk] using ih
      · simpa [eventsFor, callsFor, hk] using ih
    | cleanup now => simpa [eventsFor, callsFor] using ih

theorem mem_eventsFor {key : Str} {run : List Call} {e : Event ℕ} (h : e ∈ eventsFor key run) :
    ∃ call ∈ run, call.now = e.now := by
  induction run with
  | nil => exact absurd h List.not_mem_nil
  | cons call run ih =>
    have hrest (h : e ∈ eventsFor key run) : ∃ c ∈ call :: run, c.now = e.now := by
      obtain ⟨c, hc, hnow⟩ := ih h
      exact ⟨c, List.mem_cons_of_mem _ hc, hnow⟩
    cases call with
    | allow now k =>
      by_cases hk : k = key
      · rw [eventsFor, if_pos hk] at h
        rcases List.mem_cons.1 h with rfl | h
        · exact ⟨_, List.mem_cons_self, rfl⟩
        · exact hrest h
      · rw [eventsFor, if_neg hk] at h
        exact hrest h
    | cleanup now =>
      rcases List.mem_cons.1 h with rfl | h
      · exact ⟨_, List.mem_cons_self, rfl⟩
      · exact hrest h

theorem Ticks.eventsFor {run : List Call} (h : Ticks run) (key : Str) :
    FixedWindow.Ticks (eventsFor key run) := by
  induction run with
  | nil => exact List.Pairwise.nil
  | cons call run ih =>
    obtain ⟨hfirst, hrun⟩ := List.pairwise_cons.1 h
    have hle : ∀ e ∈ RateLimiter.eventsFor key run, call.now ≤ e.now := by
      intro e he
      obtain ⟨c, hc, hnow⟩ := mem_eventsFor he
      exact hnow ▸ hfirst c hc
    cases call with
    | allow now k =>
      by_cases hk : k = key
      · rw [RateLimiter.eventsFor, if_pos hk]
        exact List.pairwise_cons.2 ⟨hle, ih hrun⟩
      · rw [RateLimiter.eventsFor, if_neg hk]
        exact ih hrun
    | cleanup now => exact List.pairwise_cons.2 ⟨hle, ih hrun⟩

/-! ## The bound -/

/-- The calls for `key` that are allowed in the `windowSeconds` seconds from `t` on. -/
def allowedFrom (config : Config) (t : ℤ) (key : Str) (run : List Call) : ℕ :=
  (answersTo ⟨config, ∅⟩ key run).countP fun a =>
    a.allowed && (t ≤ a.now && a.now < t + config.windowSeconds * 10 ^ 9)

/-- In every half-open interval of the length of a window at most twice the limit is allowed, and
    from a reset to before the next one at most the limit. -/
def Bounded (config : Config) (run : List Call) : Prop :=
  ∀ key, (∀ t, allowedFrom config t key run ≤ 2 * config.maxRequests) ∧
    ∀ pre r mid post, answersTo ⟨config, ∅⟩ key run = pre ++ r :: (mid ++ post) → r.reset →
      (∀ a ∈ mid, ¬ a.reset) → (r :: mid).countP (·.allowed) ≤ config.maxRequests

/-- The calls of a run do not overflow a count. -/
def Countable (run : List Call) : Prop := ∀ key, (callsFor key run).length < 2 ^ 31

theorem rules_next {config : Config} (c : ℤ) (hpos : 0 ≤ c) (hlt : c + 1 < 2 ^ 31) :
    (rules config).next c = c + 1 := int32_of_isInt32 ⟨by omega, hlt⟩

/-- A window that has ended is `windowSeconds` old. -/
theorem ended_iff {config : Config} (hwindow : 1 ≤ config.windowSeconds) {start now : ℕ} :
    (rules config).ended start now ↔ start + config.windowSeconds * 10 ^ 9 ≤ (now : ℤ) := by
  simp only [rules, decide_eq_true_eq]
  unfold elapsed
  omega

theorem swept_ended {config : Config} (hdouble : IsInt32 (config.windowSeconds * 2)) {start now : ℕ}
    (h : (rules config).swept start now) : (rules config).ended start now := by
  simp only [rules, decide_eq_true_eq] at h ⊢
  rw [int32_of_isInt32 hdouble] at h
  have hpos : 0 ≤ elapsed start now := Int.natCast_nonneg _
  omega

theorem allowedFrom_eq {config : Config} (t : ℤ) (key : Str) (run : List Call) :
    allowedFrom config t key run =
      ((rules config).outcomes none (eventsFor key run)).countP
        (·.counts t.toNat (t + config.windowSeconds * 10 ^ 9).toNat) := by
  unfold allowedFrom
  rw [answersTo_eq, List.countP_map]
  refine List.countP_congr fun o _ => ?_
  simp only [Function.comp_apply, Outcome.counts, Bool.and_eq_true, decide_eq_true_eq, Int.toNat_le,
    Int.lt_toNat]
  exact Iff.rfl

/-- What is allowed in an interval are calls. -/
theorem allowedFrom_le (config : Config) (t : ℤ) (key : Str) (run : List Call) :
    allowedFrom config t key run ≤ (callsFor key run).length := by
  refine List.countP_le_length.trans (le_of_eq ?_)
  rw [answersTo_eq, List.length_map, ← hits_eventsFor]
  generalize slot ⟨config, ∅⟩ key = w
  induction eventsFor key run generalizing w with
  | nil => rfl
  | cons e es ih =>
    cases e with
    | hit now => rw [Rules.outcomes, List.length_cons, ih, hits_hit]
    | sweep now => rw [Rules.outcomes, ih, hits_sweep]

/-- A reset starts a window that takes no more than the limit. -/
theorem countP_reset_le {config : Config} (hmax : 1 ≤ config.maxRequests) {key : Str} {run : List Call}
    (hrun : (callsFor key run).length < 2 ^ 31) {pre mid post : List Answer} {r : Answer}
    (h : answersTo ⟨config, ∅⟩ key run = pre ++ r :: (mid ++ post)) (hr : r.reset)
    (hmid : ∀ a ∈ mid, ¬ a.reset) : (r :: mid).countP (·.allowed) ≤ config.maxRequests := by
  rw [answersTo_eq, List.map_eq_append_iff] at h
  obtain ⟨pre, rest, hes, -, h⟩ := h
  obtain ⟨o, rest, rfl, rfl, hrest⟩ := List.map_eq_cons_iff.1 h
  obtain ⟨mid, post, rfl, rfl, -⟩ := List.map_eq_append_iff.1 hrest
  obtain ⟨before, events, hevents, hlt, hbehind⟩ := outcomes_behind_reset hes hr
  have hfits : Fits (2 ^ 31) (some ⟨1, o.now⟩) events := by
    rw [hits_eventsFor] at hlt
    exact ⟨Int.one_nonneg, show 1 + (hits events : ℤ) < _ by omega⟩
  have hroom := countP_until_reset (r := rules config) rules_next hfits
  rw [← hbehind, List.takeWhile_append_of_pos (by simpa [toAnswer] using hmid), List.countP_append] at hroom
  have hle : (o :: mid).countP (·.allowed) ≤ mid.countP (·.allowed) + 1 := by
    rw [List.countP_cons]
    split_ifs <;> omega
  have hcount : (toAnswer key o :: mid.map (toAnswer key)).countP (·.allowed) =
      (o :: mid).countP (·.allowed) :=
    List.countP_map (l := o :: mid)
  rw [hcount]
  simp only [room, rules] at hroom
  omega

/-- Where the doubled window is an `int`, every run is bounded. -/
theorem bounded_of_double {config : Config} (hmax : 1 ≤ config.maxRequests)
    (hwindow : 1 ≤ config.windowSeconds) (hdouble : IsInt32 (config.windowSeconds * 2)) {run : List Call}
    (hticks : Ticks run) (hrun : Countable run) : Bounded config run := by
  refine fun key => ⟨fun t => ?_, fun _ _ _ _ h hr hmid => countP_reset_le hmax (hrun key) h hr hmid⟩
  have hfits : Fits (2 ^ 31) none (eventsFor key run) := by
    show (hits (eventsFor key run) : ℤ) < 2 ^ 31
    rw [hits_eventsFor]
    exact_mod_cast hrun key
  have hlen : ∀ s n, t.toNat ≤ s → (rules config).ended s n →
      (t + config.windowSeconds * 10 ^ 9).toNat ≤ n := by
    intro s n hs hended
    have hnow := (ended_iff hwindow).1 hended
    omega
  have hinterval := countP_interval rules_next (hticks.eventsFor key) hfits hlen
    (fun _ _ => swept_ended hdouble) hmax
  rw [← allowedFrom_eq] at hinterval
  simp only [rules] at hinterval
  omega

/-! ### A cleanup that erases every bucket -/

/-- Calls at one instant, with a cleanup after each. -/
def burst : ℕ → Str → List Call
  | 0, _ => []
  | n + 1, key => .allow 0 key :: .cleanup 0 :: burst n key

theorem ticks_burst (n : ℕ) (key : Str) : Ticks (burst n key) := by
  have hzero : ∀ call ∈ burst n key, call.now = 0 := by
    induction n with
    | zero => simp [burst]
    | succ n ih => simpa [burst, Call.now] using ih
  refine List.pairwise_of_forall_mem_list fun a ha b hb => ?_
  rw [hzero a ha, hzero b hb]

theorem length_callsFor_burst (n : ℕ) (key k : Str) : (callsFor k (burst n key)).length ≤ n := by
  induction n with
  | zero => rfl
  | succ n ih =>
    unfold callsFor at ih ⊢
    by_cases hk : key = k
    · simpa [burst, hk] using ih
    · simpa [burst, hk] using ih.trans n.le_succ

/-- Every call of the burst is allowed. -/
theorem allowedFrom_burst {config : Config} (hwindow : 2 ^ 30 ≤ config.windowSeconds)
    (hwindow' : config.windowSeconds < 2 ^ 31) (n : ℕ) (key : Str) :
    allowedFrom config 0 key (burst n key) = n := by
  have hsweep (w : Window ℕ) : (rules config).sweep 0 (some w) = none := by
    have hpos : 0 ≤ elapsed w.start 0 := Int.natCast_nonneg _
    have hswept : (rules config).swept w.start 0 := by
      simp only [rules, decide_eq_true_eq]
      rw [int32_double hwindow hwindow']
      omega
    simp [Rules.sweep, hswept]
  rw [allowedFrom_eq]
  induction n with
  | zero => rfl
  | succ n ih =>
    have hcounts : Outcome.counts (0 : ℤ).toNat (0 + config.windowSeconds * 10 ^ 9).toNat
        ⟨0, true, true⟩ := by
      simp only [Outcome.counts, Bool.true_and, Bool.and_eq_true, decide_eq_true_eq, Int.lt_toNat]
      exact ⟨Nat.le_refl _, by omega⟩
    rw [burst, eventsFor, if_pos rfl, eventsFor, Rules.outcomes, Rules.outcomes, Rules.step, Rules.step,
      hsweep]
    exact (List.countP_cons_of_pos hcounts).trans (congrArg (· + 1) ih)

/-- **The bound on the answers** holds of every run of a configuration whose doubled window is an
    `int`; of the others it holds only where the limit is as large as all the calls. -/
theorem bounded_iff (config : Config) (hmax : 1 ≤ config.maxRequests) (hmax' : config.maxRequests < 2 ^ 31)
    (hwindow : 1 ≤ config.windowSeconds) (hwindow' : config.windowSeconds < 2 ^ 31) :
    (∀ run, Ticks run → Countable run → Bounded config run) ↔
      config.windowSeconds < 2 ^ 30 ∨ 2 ^ 30 ≤ config.maxRequests := by
  constructor
  · intro h
    by_contra hnot
    obtain ⟨hdouble, hlimit⟩ := not_or.1 hnot
    have hcalls : Countable (burst (2 * config.maxRequests + 1).toNat []) := by
      intro key
      have hle := length_callsFor_burst (2 * config.maxRequests + 1).toNat [] key
      omega
    have hbound := (h _ (ticks_burst _ _) hcalls []).1 0
    rw [allowedFrom_burst (by omega) hwindow'] at hbound
    omega
  · rintro (hdouble | hlimit) run hticks hrun
    · exact bounded_of_double hmax hwindow ⟨by omega, by omega⟩ hticks hrun
    · refine fun key => ⟨fun t => ?_, fun _ _ _ _ h hr hmid => countP_reset_le hmax (hrun key) h hr hmid⟩
      have hle := allowedFrom_le config t key run
      have hlt := hrun key
      omega

/-- The limiter of `main`, and a window that a cleanup leaves open. -/
theorem bounded_main : Bounded ⟨60, 60⟩ [.allow 0 [47], .cleanup 1, .allow 2 [47]] := by
  have hcalls : Countable [.allow 0 [47], .cleanup 1, .allow 2 [47]] := fun key =>
    (List.length_filter_le _ _).trans_lt (by decide)
  exact (bounded_iff ⟨60, 60⟩ (by decide) (by decide) (by decide) (by decide)).2 (Or.inl (by decide)) _
    (by decide) hcalls

/-- A limit of one call in `2 ^ 30` seconds, and three calls allowed at one instant. -/
theorem burst_three : ¬ ∀ config : Config, 1 ≤ config.maxRequests → config.maxRequests < 2 ^ 31 →
    1 ≤ config.windowSeconds → config.windowSeconds < 2 ^ 31 →
    ∀ run, Ticks run → Countable run → Bounded config run := by
  intro h
  have hrun : Countable (burst 3 []) := fun key =>
    (length_callsFor_burst 3 [] key).trans_lt (by decide)
  have hbound := (h ⟨1, 2 ^ 30⟩ (by decide) (by decide) (by decide) (by decide) _ (ticks_burst 3 []) hrun []).1 0
  exact absurd hbound (by decide +kernel)

/-! ## Cleanups and other keys cannot be seen -/

theorem eventsFor_filter (key : Str) (run : List Call) :
    (eventsFor key run).filter Event.isHit = eventsFor key (callsFor key run) := by
  induction run with
  | nil => rfl
  | cons call run ih =>
    cases call with
    | allow now k =>
      unfold callsFor at ih ⊢
      by_cases hk : k = key
      · simp only [eventsFor, hk, if_true, decide_true, List.filter_cons_of_pos]
        rw [List.filter_cons_of_pos rfl, ih]
      · simp [eventsFor, hk, ih]
    | cleanup now =>
      unfold callsFor at ih ⊢
      simp [eventsFor, ih]

theorem ended_mono {config : Config} {start n m : ℕ} (h : (rules config).ended start n) (hnm : n ≤ m) :
    (rules config).ended start m := by
  simp only [rules, decide_eq_true_eq] at h ⊢
  unfold elapsed at h ⊢
  omega

/-- The answers for a key are those of a run with its calls alone. -/
theorem answersTo_callsFor {config : Config} (hdouble : IsInt32 (config.windowSeconds * 2)) {run : List Call}
    (hticks : Ticks run) (key : Str) :
    answersTo ⟨config, ∅⟩ key run = answersTo ⟨config, ∅⟩ key (callsFor key run) := by
  rw [answersTo_eq, answersTo_eq, ← eventsFor_filter]
  exact congrArg _ (outcomes_hits (hticks.eventsFor key) (Or.inl rfl) (fun _ _ => swept_ended hdouble)
    fun _ _ _ => ended_mono)

/-- **Two runs with the same calls for a key** answer them alike, whatever cleanups and calls for
    other keys stand in them. -/
theorem answersTo_eq_of_callsFor (config : Config) (hdouble : IsInt32 (config.windowSeconds * 2)) (key : Str)
    (run run' : List Call) (hticks : Ticks run) (hticks' : Ticks run')
    (hcalls : callsFor key run = callsFor key run') :
    answersTo ⟨config, ∅⟩ key run = answersTo ⟨config, ∅⟩ key run' := by
  rw [answersTo_callsFor hdouble hticks, answersTo_callsFor hdouble hticks', hcalls]

/-- A cleanup between two calls that are denied, and a call for another key. -/
theorem answersTo_sixty :
    answersTo ⟨⟨1, 60⟩, ∅⟩ [47] [.allow 0 [47], .allow 1 [47], .cleanup 2, .allow 3 [], .allow 4 [47]] =
      answersTo ⟨⟨1, 60⟩, ∅⟩ [47] [.allow 0 [47], .allow 1 [47], .allow 4 [47]] :=
  answersTo_eq_of_callsFor _ (by decide) _ _ _ (by decide) (by decide) (by decide)

end NarMusic.RateLimiter
