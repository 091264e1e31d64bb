/-
  The HTTP client (`infrastructure/http_client/curl_client.cpp`): calls of several threads that
  share a pool of libcurl handles.

  A handle in the pool still has the options of its last call, and some of them point to memory
  that is gone.  `acquireHandle` resets it, so every transfer is made with the options of its own
  call and with memory of that call, whatever the other threads do (`transfers_own`).  `urlEncode`
  takes no handle from the pool but gives one to it: the handles that exist are as many as were
  ever in use at once, and one more for each `urlEncode` (`made_between`).

  The steps of a call are those between which another thread can see or change the pool or a handle.
-/
import NarMusic.Lib.Assignments
import NarMusic.Lib.Bytes
import NarMusic.Lib.Lease
import NarMusic.Lib.Run
import NarMusic.Lib.Slots

namespace NarMusic

open Cxx

namespace CurlClient

structure Options where
  connectTimeout : ℤ := 10
  requestTimeout : ℤ := 15
  followRedirects : Bool := true
  verifySsl : Bool := false
  userAgent : Str := lit "Mozilla/5.0 (Windows NT 10.0; Win64; x64) AppleWebKit/537.36"

/-- The options of libcurl that are set. -/
inductive Opt where
  | HTTPHEADER | URL | WRITEFUNCTION | WRITEDATA | HEADERFUNCTION | HEADERDATA | POSTFIELDS | POST | NOBODY
  | TIMEOUT | CONNECTTIMEOUT | FOLLOWLOCATION | SSL_VERIFYPEER | SSL_VERIFYHOST
  | NOPROGRESS | XFERINFOFUNCTION | XFERINFODATA
  deriving DecidableEq

inductive Callback where
  | writeString | writeBinary | writeFile | progress
  /-- The callbacks of `get` and of `resolveRedirect` for the headers. -/
  | header | location
  deriving DecidableEq

/-- What a call owns and an option can point to. -/
inductive Place where
  | headers | body | binaryBody | responseHeaders | data | file | progressCallback | location
  deriving DecidableEq

inductive Val where
  | num (n : ℤ)
  /-- libcurl copies it. -/
  | text (s : Str)
  | callback (f : Callback)
  /-- A pointer to memory of the `i`-th call. -/
  | place (i : ℕ) (p : Place)
  deriving DecidableEq

inductive Method where
  | get (url : Str) (headers : List Str)
  | post (url data : Str) (headers : List Str)
  | download (url : Str) (headers : List Str)
  | downloadToFile (url filePath : Str) (headers : List Str) (progressCallback : Bool)
  | resolveRedirect (url : Str)
  | urlEncode (value : Str)
  deriving DecidableEq

inductive Stage where
  | called
  /-- Before `curl_easy_init`. -/
  | missed
  /-- The call has a handle, which has not been reset. -/
  | taken (h : ℕ)
  /-- The options that are still to be set; `fopen` stands before some of them. -/
  | setting (h : ℕ) (rest : List (Opt × Val))
  /-- In `curl_easy_perform`. -/
  | performing (h : ℕ)
  | performed (h : ℕ)
  /-- The list of headers is freed. -/
  | freed (h : ℕ)
  | returned
  /-- `curl_easy_init` has failed. -/
  | failed
  deriving DecidableEq

structure Call where
  method : Method
  stage : Stage
  deriving DecidableEq

structure Client where
  handlePool : List ℕ := []
  /-- The handles that `curl_easy_init` has made. -/
  made : ℕ := 0
  options : ℕ → Opt → Option Val := fun _ _ => none
  calls : List Call := []

inductive Event where
  | call (method : Method)
  /-- The lock of the pool: a handle is taken from its front. -/
  | lock (i : ℕ)
  | init (i : ℕ) (works : Bool)
  | reset (i : ℕ)
  /-- `curl_easy_escape` -/
  | escape (i : ℕ)
  | setopt (i : ℕ)
  /-- `fopen` fails. -/
  | noFile (i : ℕ)
  | perform (i : ℕ)
  | finish (i : ℕ)
  | freeHeaders (i : ℕ)
  /-- The lock of the pool: the handle is put at its end. -/
  | release (i : ℕ)

/-! ## The options of a call -/

section
variable (opts : Options) (i : ℕ)

/-- The header option of `acquireHandle`: an empty list is no list. -/
def acquired (headers : List Str) (setUserAgent : Bool) : List (Opt × Val) :=
  if headers = [] ∧ (setUserAgent = false ∨ opts.userAgent = []) then []
  else [(.HTTPHEADER, .place i .headers)]

def applyCommonOptions : List (Opt × Val) :=
  [(.TIMEOUT, .num opts.requestTimeout), (.CONNECTTIMEOUT, .num opts.connectTimeout),
    (.FOLLOWLOCATION, .num (if opts.followRedirects then 1 else 0)),
    (.SSL_VERIFYPEER, .num (if opts.verifySsl then 1 else 0)),
    (.SSL_VERIFYHOST, .num (if opts.verifySsl then 2 else 0))]

/-- What `downloadToFile` sets once the file is open. -/
def fileOptions (url : Str) (progressCallback : Bool) : List (Opt × Val) :=
  [(.URL, .text (cStr url)), (.WRITEFUNCTION, .callback .writeFile), (.WRITEDATA, .place i .file),
    (.FOLLOWLOCATION, .num 1), (.SSL_VERIFYPEER, .num 0), (.SSL_VERIFYHOST, .num 0)] ++
    if progressCallback then
      [(.NOPROGRESS, .num 0), (.XFERINFOFUNCTION, .callback .progress), (.XFERINFODATA, .place i .progressCallback)]
    else []

/-- The calls of `curl_easy_setopt`, in order. -/
def settings : Method → List (Opt × Val)
  | .get url headers => acquired opts i headers true ++
    [(.URL, .text (cStr url)), (.WRITEFUNCTION, .callback .writeString), (.WRITEDATA, .place i .body),
      (.HEADERFUNCTION, .callback .header), (.HEADERDATA, .place i .responseHeaders)] ++ applyCommonOptions opts
  | .post url _ headers => acquired opts i headers true ++
    [(.URL, .text (cStr url)), (.WRITEFUNCTION, .callback .writeString), (.WRITEDATA, .place i .body),
      (.POSTFIELDS, .place i .data), (.POST, .num 1)] ++ applyCommonOptions opts
  | .download url headers => acquired opts i headers true ++
    [(.URL, .text (cStr url)), (.WRITEFUNCTION, .callback .writeBinary), (.WRITEDATA, .place i .binaryBody),
      (.FOLLOWLOCATION, .num 1), (.SSL_VERIFYPEER, .num 0), (.SSL_VERIFYHOST, .num 0)]
  | .downloadToFile url _ headers progressCallback => acquired opts i headers true ++
    (.HTTPHEADER, .place i .headers) :: fileOptions i url progressCallback
  | .resolveRedirect url => acquired opts i [] false ++
    [(.URL, .text (cStr url)), (.FOLLOWLOCATION, .num 0), (.NOBODY, .num 1), (.HEADERFUNCTION, .callback .location),
      (.HEADERDATA, .place i .location), (.SSL_VERIFYPEER, .num 0), (.SSL_VERIFYHOST, .num 0), (.TIMEOUT, .num 10)]
  | .urlEncode _ => []

/-- `fopen` stands here. -/
def opensFile (call : Call) (rest : List (Opt × Val)) : Prop :=
  match call.method with
  | .downloadToFile url _ _ progressCallback => rest = fileOptions i url progressCallback
  | _ => False

instance (call : Call) (rest : List (Opt × Val)) : Decidable (opensFile i call rest) := by
  unfold opensFile
  split <;> infer_instance

end

/-! ## Steps -/

/-- `curl_easy_setopt` -/
def setopt (options : ℕ → Opt → Option Val) (h : ℕ) (o : Opt) (v : Val) : ℕ → Opt → Option Val := fun h' o' =>
  if h' = h ∧ o' = o then some v else options h' o'

/-- `curl_easy_reset` -/
def reset (options : ℕ → Opt → Option Val) (h : ℕ) : ℕ → Opt → Option Val := fun h' o' =>
  if h' = h then none else options h' o'

def Method.encodes : Method → Bool
  | .urlEncode _ => true
  | _ => false

section
variable (opts : Options)

/-- The `i`-th call goes on. -/
def Client.move (c : Client) (i : ℕ) (call : Call) (stage : Stage) : Client :=
  { c with calls := c.calls.set i { call with stage } }

def stepCall (c : Client) (i : ℕ) (call : Call) : Event → Client
  | .lock _ =>
    if call.stage = .called then
      match c.handlePool with
      | h :: rest => { c with handlePool := rest }.move i call (.taken h)
      | [] => c.move i call .missed
    else c
  | .init _ works =>
    if call.stage = .missed then
      if works then { c with made := c.made + 1 }.move i call (.taken c.made) else c.move i call .failed
    else c
  | .reset _ =>
    match call.stage with
    | .taken h =>
      if call.method.encodes then c
      else { c with options := reset c.options h }.move i call (.setting h (settings opts i call.method))
    | _ => c
  | .escape _ =>
    match call.stage with
    | .taken h => if call.method.encodes then c.move i call (.freed h) else c
    | _ => c
  | .setopt _ =>
    match call.stage with
    | .setting h ((o, v) :: rest) => { c with options := setopt c.options h o v }.move i call (.setting h rest)
    | _ => c
  | .noFile _ =>
    match call.stage with
    | .setting h rest => if opensFile i call rest then c.move i call (.performed h) else c
    | _ => c
  | .perform _ =>
    match call.stage with
    | .setting h [] => c.move i call (.performing h)
    | _ => c
  | .finish _ =>
    match call.stage with
    | .performing h => c.move i call (.performed h)
    | _ => c
  | .freeHeaders _ =>
    match call.stage with
    | .performed h => c.move i call (.freed h)
    | _ => c
  | .release _ =>
    match call.stage with
    | .freed h => { c with handlePool := c.handlePool ++ [h] }.move i call .returned
    | _ => c
  | .call _ => c

/-- The call that an event is a step of. -/
def Event.of : Event → Option ℕ
  | .call _ => none
  | .lock i | .init i _ | .reset i | .escape i | .setopt i | .noFile i | .perform i | .finish i | .freeHeaders i
  | .release i => some i

def step (c : Client) (e : Event) : Client :=
  match e with
  | .call method => { c with calls := c.calls ++ [⟨method, if method.encodes then .missed else .called⟩] }
  | e =>
    match e.of.bind fun i => c.calls[i]?.map fun call => (i, call) with
    | some (i, call) => stepCall opts c i call e
    | none => c

/-- The client after a run. -/
def exec (run : List Event) : Client := Run.exec (step opts) {} run

end

/-! ## What a step does -/

def Stage.handle : Stage → Option ℕ
  | .taken h | .setting h _ | .performing h | .performed h | .freed h => some h
  | _ => none

def Call.handle (call : Call) : Option ℕ := call.stage.handle

/-- A handle that has been reset, with the options that are still to be set. -/
def Stage.prepared : Stage → Option (ℕ × List (Opt × Val))
  | .setting h rest => some (h, rest)
  | .performing h => some (h, [])
  | _ => none

/-- What a step can do. -/
inductive Stepped (opts : Options) (c : Client) : Client → Prop
  | stays : Stepped opts c c
  | calls (method stage) : stage = (if method.encodes then .missed else .called) →
      Stepped opts c { c with calls := c.calls ++ [⟨method, stage⟩] }
  | takes {i call h rest} : c.calls[i]? = some call → call.stage = .called → c.handlePool = h :: rest →
      Stepped opts c ({ c with handlePool := rest }.move i call (.taken h))
  | misses {i call} : c.calls[i]? = some call → call.stage = .called → c.handlePool = [] →
      Stepped opts c (c.move i call .missed)
  | makes {i call} : c.calls[i]? = some call → call.stage = .missed →
      Stepped opts c ({ c with made := c.made + 1 }.move i call (.taken c.made))
  | fails {i call} : c.calls[i]? = some call → call.stage = .missed → Stepped opts c (c.move i call .failed)
  | resets {i call h} : c.calls[i]? = some call → call.stage = .taken h →
      Stepped opts c ({ c with options := reset c.options h }.move i call (.setting h (settings opts i call.method)))
  | sets {i call h o v rest} : c.calls[i]? = some call → call.stage = .setting h ((o, v) :: rest) →
      Stepped opts c ({ c with options := setopt c.options h o v }.move i call (.setting h rest))
  | goes {i call h} (stage) : c.calls[i]? = some call → call.stage.handle = some h → stage.handle = some h →
      (stage.prepared = none ∨ stage.prepared = call.stage.prepared) → Stepped opts c (c.move i call stage)
  | puts {i call h} : c.calls[i]? = some call → call.stage = .freed h →
      Stepped opts c ({ c with handlePool := c.handlePool ++ [h] }.move i call .returned)

theorem stepped_stepCall (opts : Options) (c : Client) {i : ℕ} {call : Call} (hi : c.calls[i]? = some call)
    (e : Event) : Stepped opts c (stepCall opts c i call e) := by
  cases e with
  | call method => exact .stays
  | lock _ =>
    unfold stepCall
    dsimp only
    split_ifs with hstage
    · cases hpool : c.handlePool with
      | nil => exact .misses hi hstage hpool
      | cons h rest => exact .takes hi hstage hpool
    · exact .stays
  | init _ works =>
    unfold stepCall
    dsimp only
    split_ifs with hstage
    · exact .makes hi hstage
    · exact .fails hi hstage
    · exact .stays
  | reset _ =>
    unfold stepCall
    dsimp only
    split
    · next h hstage =>
      split_ifs
      · exact .stays
      · exact .resets hi hstage
    · exact .stays
  | escape _ =>
    unfold stepCall
    dsimp only
    split
    · next h hstage =>
      split_ifs
      · exact .goes (.freed h) hi (by rw [hstage]; rfl) rfl (.inl rfl)
      · exact .stays
    · exact .stays
  | setopt _ =>
    unfold stepCall
    dsimp only
    split
    · next h o v rest hstage => exact .sets hi hstage
    · exact .stays
  | noFile _ =>
    unfold stepCall
    dsimp only
    split
    · next h rest hstage =>
      split_ifs
      · exact .goes (.performed h) hi (by rw [hstage]; rfl) rfl (.inl rfl)
      · exact .stays
    · exact .stays
  | perform _ =>
    unfold stepCall
    dsimp only
    split
    · next h hstage => exact .goes (.performing h) hi (by rw [hstage]; rfl) rfl (.inr (by rw [hstage]; rfl))
    · exact .stays
  | finish _ =>
    unfold stepCall
    dsimp only
    split
    · next h hstage => exact .goes (.performed h) hi (by rw [hstage]; rfl) rfl (.inl rfl)
    · exact .stays
  | freeHeaders _ =>
    unfold stepCall
    dsimp only
    split
    · next h hstage => exact .goes (.freed h) hi (by rw [hstage]; rfl) rfl (.inl rfl)
    · exact .stays
  | release _ =>
    unfold stepCall
    dsimp only
    split
    · next h hstage => exact .puts hi hstage
    · exact .stays

theorem stepped_step (opts : Options) (c : Client) (e : Event) : Stepped opts c (step opts c e) := by
  have hcall (i : ℕ) : Stepped opts c (match (some i).bind fun i => c.calls[i]?.map fun call => (i, call) with
      | some (i, call) => stepCall opts c i call e
      | none => c) := by
    rw [Option.bind_some]
    cases hi : c.calls[i]? with
    | none => exact .stays
    | some call => exact stepped_stepCall opts c hi e
  cases e with
  | call method => exact .calls method _ rfl
  | lock i => exact hcall i
  | init i works => exact hcall i
  | reset i => exact hcall i
  | escape i => exact hcall i
  | setopt i => exact hcall i
  | noFile i => exact hcall i
  | perform i => exact hcall i
  | finish i => exact hcall i
  | freeHeaders i => exact hcall i
  | release i => exact hcall i

/-! ## The handles and their options -/

section
variable {opts : Options} {c c' : Client}

/-- Every handle is in the pool or with one call, and the options of a handle that a call has reset
    are those that the call has set. -/
structure Inv (opts : Options) (c : Client) : Prop where
  sound : Lease.Sound Call.handle c.handlePool c.calls c.made
  own : ∀ i call h rest, c.calls[i]? = some call → call.stage.prepared = some (h, rest) →
    ∃ done, settings opts i call.method = done ++ rest ∧ c.options h = fun o => Assignments.value o done

theorem inv_start (opts : Options) : Inv opts {} := ⟨Lease.sound_empty _, fun _ _ _ _ h => by cases h⟩

theorem handle_of_prepared {stage : Stage} {h : ℕ} {rest : List (Opt × Val)} (hp : stage.prepared = some (h, rest)) :
    stage.handle = some h := by
  cases stage with
  | setting g todo =>
    obtain ⟨rfl, -⟩ := Prod.mk.inj (Option.some.inj hp)
    rfl
  | performing g =>
    obtain ⟨rfl, -⟩ := Prod.mk.inj (Option.some.inj hp)
    rfl
  | _ => cases hp

/-- The other calls have what they had, when one call moves. -/
theorem own_set {calls : List Call} {i : ℕ} {call call' : Call} {options options' : ℕ → Opt → Option Val}
    (hi : calls[i]? = some call)
    (hown : ∀ j call h rest, calls[j]? = some call → call.stage.prepared = some (h, rest) →
      ∃ done, settings opts j call.method = done ++ rest ∧ options h = fun o => Assignments.value o done)
    (hother : ∀ j call h rest, j ≠ i → calls[j]? = some call → call.stage.prepared = some (h, rest) →
      options' h = options h)
    (hnew : ∀ h rest, call'.stage.prepared = some (h, rest) →
      ∃ done, settings opts i call'.method = done ++ rest ∧ options' h = fun o => Assignments.value o done) :
    ∀ j call h rest, (calls.set i call')[j]? = some call → call.stage.prepared = some (h, rest) →
      ∃ done, settings opts j call.method = done ++ rest ∧ options' h = fun o => Assignments.value o done := by
  intro j other h rest hj hp
  rcases Slots.getElem?_set_cases hj with ⟨rfl, rfl⟩ | ⟨hne, hj⟩
  · exact hnew h rest hp
  · rw [hother j other h rest hne hj hp]
    exact hown j other h rest hj hp

theorem inv_step (hinv : Inv opts c) (h : Stepped opts c c') : Inv opts c' := by
  obtain ⟨hsound, hown⟩ := hinv
  cases h with
  | stays => exact ⟨hsound, hown⟩
  | calls method stage hstage =>
    have hnone : stage.handle = none ∧ stage.prepared = none := by
      rw [hstage]
      split_ifs <;> exact ⟨rfl, rfl⟩
    refine ⟨hsound.new hnone.1, fun j call h rest hj hp => ?_⟩
    rcases Slots.getElem?_append_cases hj with hj | ⟨-, rfl⟩
    · exact hown j call h rest hj hp
    · rw [hnone.2] at hp
      cases hp
  | takes hi hstage hpool =>
    rw [hpool] at hsound
    refine ⟨hsound.take hi (by rw [Call.handle, hstage]; rfl) rfl, own_set hi hown (fun _ _ _ _ _ _ _ => rfl) ?_⟩
    intro h rest hp
    cases hp
  | misses hi hstage hpool =>
    refine ⟨hsound.keep hi (by rw [Call.handle, Call.handle, hstage]; rfl),
      own_set hi hown (fun _ _ _ _ _ _ _ => rfl) ?_⟩
    intro h rest hp
    cases hp
  | makes hi hstage =>
    refine ⟨hsound.make hi (by rw [Call.handle, hstage]; rfl) rfl, own_set hi hown (fun _ _ _ _ _ _ _ => rfl) ?_⟩
    intro h rest hp
    cases hp
  | fails hi hstage =>
    refine ⟨hsound.keep hi (by rw [Call.handle, Call.handle, hstage]; rfl),
      own_set hi hown (fun _ _ _ _ _ _ _ => rfl) ?_⟩
    intro h rest hp
    cases hp
  | @resets i call h hi hstage =>
    have hhandle : Call.handle call = some h := by rw [Call.handle, hstage]; rfl
    refine ⟨hsound.keep hi (by rw [hhandle]; rfl), own_set hi hown ?_ ?_⟩
    · intro j other h' rest hne hj hp
      have hdiff : h' ≠ h := fun heq =>
        hne (hsound.inj hj hi (handle_of_prepared hp) (heq ▸ hhandle))
      exact funext fun o => if_neg hdiff
    · intro h' rest hp
      obtain ⟨rfl, rfl⟩ := Prod.mk.inj (Option.some.inj hp)
      exact ⟨[], rfl, funext fun o => if_pos rfl⟩
  | @sets i call h o v rest hi hstage =>
    have hprepared : call.stage.prepared = some (h, (o, v) :: rest) := by rw [hstage]; rfl
    have hhandle : Call.handle call = some h := handle_of_prepared hprepared
    refine ⟨hsound.keep hi (by rw [hhandle]; rfl), own_set hi hown ?_ ?_⟩
    · intro j other h' rest' hne hj hp
      have hdiff : h' ≠ h := fun heq =>
        hne (hsound.inj hj hi (handle_of_prepared hp) (heq ▸ hhandle))
      exact funext fun o' => if_neg fun hboth => hdiff hboth.1
    · intro h' rest' hp
      obtain ⟨rfl, rfl⟩ := Prod.mk.inj (Option.some.inj hp)
      obtain ⟨done, hsettings, hoptions⟩ := hown i call h _ hi hprepared
      refine ⟨done ++ [(o, v)], by rw [hsettings, List.append_assoc]; rfl, funext fun o' => ?_⟩
      rw [Assignments.value_append_singleton, ← congrFun hoptions o']
      show (if h = h ∧ o' = o then some v else c.options h o') = _
      simp only [true_and]
  | @goes i call g stage hi hhandle hsame hprepared =>
    refine ⟨hsound.keep hi (hsame.trans hhandle.symm), own_set hi hown (fun _ _ _ _ _ _ _ => rfl) ?_⟩
    intro h rest hp
    rcases hprepared with hnone | heq
    · rw [hnone] at hp
      cases hp
    · exact hown i call h rest hi (heq.symm.trans hp)
  | puts hi hstage =>
    refine ⟨hsound.put hi (by rw [Call.handle, hstage]; rfl) rfl, own_set hi hown (fun _ _ _ _ _ _ _ => rfl) ?_⟩
    intro h rest hp
    cases hp

theorem inv_exec (opts : Options) (run : List Event) : Inv opts (exec opts run) :=
  Run.exec_inv (I := Inv opts) (fun c e h => inv_step h (stepped_step opts c e)) (inv_start opts) run

/-- What a call sets points to its own memory. -/
theorem place_settings {i j : ℕ} {method : Method} {o : Opt} {p : Place}
    (h : (o, .place j p) ∈ settings opts i method) : j = i := by
  have hacquired {headers : List Str} {setUserAgent : Bool}
      (h : (o, Val.place j p) ∈ acquired opts i headers setUserAgent) : j = i := by
    unfold acquired at h
    split_ifs at h
    · cases h
    · simp only [List.mem_singleton, Prod.mk.injEq, Val.place.injEq] at h
      exact h.2.1
  have hcommon : (o, Val.place j p) ∉ applyCommonOptions opts := by simp [applyCommonOptions]
  have hfile {url : Str} {progressCallback : Bool} (h : (o, Val.place j p) ∈ fileOptions i url progressCallback) :
      j = i := by
    unfold fileOptions at h
    split_ifs at h <;> simp at h <;> tauto
  cases method with
  | urlEncode => cases h
  | get url headers =>
    rcases List.mem_append.1 h with h | h
    · rcases List.mem_append.1 h with h | h
      · exact hacquired h
      · simp at h
        tauto
    · exact absurd h hcommon
  | post url data headers =>
    rcases List.mem_append.1 h with h | h
    · rcases List.mem_append.1 h with h | h
      · exact hacquired h
      · simp at h
        tauto
    · exact absurd h hcommon
  | download url headers =>
    rcases List.mem_append.1 h with h | h
    · exact hacquired h
    · simp at h
      tauto
  | downloadToFile url filePath headers progressCallback =>
    rcases List.mem_append.1 h with h | h
    · exact hacquired h
    · rcases List.mem_cons.1 h with h | h
      · simp at h
        tauto
      · exact hfile h
  | resolveRedirect url =>
    rcases List.mem_append.1 h with h | h
    · exact hacquired h
    · simp at h
      tauto

/-- **Transfers are made with the call's own options.**  In every run, the handle of a call that is
    in `curl_easy_perform` has the options that this call has set, and no others; what they point to
    is memory of this call; and the handle is neither in the pool nor with another call. -/
theorem transfers_own (opts : Options) (run : List Event) {i h : ℕ} {call : Call}
    (hi : (exec opts run).calls[i]? = some call) (hstage : call.stage = .performing h) :
    (∀ o, (exec opts run).options h o = Assignments.value o (settings opts i call.method)) ∧
      (∀ o j p, (exec opts run).options h o = some (.place j p) → j = i) ∧
      h ∉ (exec opts run).handlePool ∧
      ∀ j other, (exec opts run).calls[j]? = some other → other.handle = some h → j = i := by
  obtain ⟨hsound, hown⟩ := inv_exec opts run
  have hhandle : call.handle = some h := by rw [Call.handle, hstage]; rfl
  have hoptions (o : Opt) : (exec opts run).options h o = Assignments.value o (settings opts i call.method) := by
    obtain ⟨done, hsettings, hoptions⟩ := hown i call h [] hi (by rw [hstage]; rfl)
    rw [hsettings, List.append_nil, hoptions]
  refine ⟨hoptions, fun o j p hplace => ?_, hsound.notMem hi hhandle, fun j other hj hother =>
    hsound.inj hj hi hother hhandle⟩
  rw [hoptions] at hplace
  have hmem := (Assignments.perm_lasts _).symm.subset (List.mem_append_left _ (Assignments.mem_lasts.2 hplace))
  exact place_settings hmem

end

/-! ## How many handles there are -/

section
variable (c : Client)

def Call.inProgress (call : Call) : Bool := call.stage ≠ .returned ∧ call.stage ≠ .failed

/-- A call that has found no handle in the pool. -/
def Call.waits (call : Call) : Bool := call.stage = .missed ∧ call.method.encodes = false

/-- A `urlEncode` that has made its handle. -/
def Call.encoded (call : Call) : Bool :=
  call.method.encodes = true ∧ call.stage ≠ .called ∧ call.stage ≠ .missed ∧ call.stage ≠ .failed

/-- The calls in progress. -/
def Client.inProgress : ℕ := c.calls.countP Call.inProgress

def Client.encoded : ℕ := c.calls.countP Call.encoded

def Client.waiting : ℕ := c.calls.countP Call.waits

theorem held_waiting_le : (Lease.held Call.handle c.calls).length + c.waiting ≤ c.inProgress := by
  have hcall (call : Call) : call.handle.toList.length + (if call.waits then 1 else 0) ≤
      if call.inProgress then 1 else 0 := by
    obtain ⟨method, stage⟩ := call
    cases stage with
    | missed =>
      simp only [Call.handle, Stage.handle, Call.waits, Call.inProgress]
      split_ifs <;> simp_all
    | _ => simp [Call.handle, Stage.handle, Call.waits, Call.inProgress]
  unfold Client.waiting Client.inProgress Lease.held
  induction c.calls with
  | nil => exact le_rfl
  | cons call calls ih =>
    have hhead := hcall call
    rw [List.filterMap_cons, List.countP_cons, List.countP_cons]
    cases hhandle : call.handle with
    | none =>
      rw [hhandle, Option.toList_none, List.length_nil] at hhead
      dsimp only
      omega
    | some h =>
      rw [hhandle, Option.toList_some, List.length_singleton] at hhead
      rw [List.length_cons]
      omega

end

variable {opts : Options} {c c' : Client}

/-- A `urlEncode` does not look at the pool. -/
def Plain (c : Client) : Prop :=
  ∀ (i : ℕ) (call : Call), c.calls[i]? = some call → call.stage = .called → call.method.encodes = false

theorem plain_step (hplain : Plain c) (h : Stepped opts c c') : Plain c' := by
  have hmove {i : ℕ} {call' : Call} (hne : call'.stage ≠ .called) :
      ∀ (j : ℕ) (call : Call), (c.calls.set i call')[j]? = some call → call.stage = .called →
        call.method.encodes = false := by
    intro j call hj hstage
    rcases Slots.getElem?_set_cases hj with ⟨-, rfl⟩ | ⟨-, hj⟩
    · exact absurd hstage hne
    · exact hplain j call hj hstage
  cases h with
  | stays => exact hplain
  | calls method stage hcalled =>
    intro j call hj hstage
    rcases Slots.getElem?_append_cases hj with hj | ⟨-, rfl⟩
    · exact hplain j call hj hstage
    · rw [hcalled] at hstage
      split_ifs at hstage with hencodes
      exact eq_false_of_ne_true hencodes
  | takes => exact hmove nofun
  | misses => exact hmove nofun
  | makes => exact hmove nofun
  | fails => exact hmove nofun
  | resets => exact hmove nofun
  | sets => exact hmove nofun
  | goes stage _ _ hhandle =>
    refine hmove fun hstage => ?_
    obtain rfl : stage = .called := hstage
    cases hhandle
  | puts => exact hmove nofun

/-- The handles that were made, against the calls that there were at once. -/
structure Counted (n : ℕ) (c : Client) : Prop where
  encoded_le : c.encoded ≤ c.made
  le_encoded : c.made + c.waiting ≤ n + c.encoded

theorem waits_eq_false {call : Call} (h : call.stage ≠ .missed) : call.waits = false := by
  simp [Call.waits, h]

theorem encoded_eq {call : Call} (h : call.stage ≠ .called ∧ call.stage ≠ .missed ∧ call.stage ≠ .failed) :
    call.encoded = call.method.encodes := by
  simp [Call.encoded, h]

theorem encoded_eq_false {call : Call} (h : call.stage = .called ∨ call.stage = .missed ∨ call.stage = .failed) :
    call.encoded = false := by
  rcases h with h | h | h <;> simp [Call.encoded, h]

/-- A step that makes no handle, and after which no call waits that did not wait before. -/
theorem counted_set {n i : ℕ} {call : Call} (hc : Counted n c) (hi : c.calls[i]? = some call) (stage : Stage)
    (hstage : stage ≠ .missed) (hencoded : Call.encoded { call with stage } = call.encoded)
    (pool : List ℕ) (options : ℕ → Opt → Option Val) :
    Counted n ⟨pool, c.made, options, c.calls.set i { call with stage }⟩ := by
  have hw := Slots.countP_set (a := { call with stage }) Call.waits hi
  have he := Slots.countP_set (a := { call with stage }) Call.encoded hi
  have hwaits : Call.waits { call with stage } = false := waits_eq_false hstage
  rw [hencoded] at he
  rw [hwaits] at hw
  obtain ⟨hlower, hupper⟩ := hc
  unfold Client.encoded at hlower hupper
  unfold Client.waiting at hupper
  refine ⟨?_, ?_⟩
  · show (c.calls.set i _).countP Call.encoded ≤ c.made
    omega
  · show c.made + (c.calls.set i _).countP Call.waits ≤ n + (c.calls.set i _).countP Call.encoded
    simp only [Bool.false_eq_true, if_false] at hw
    omega

theorem encoded_started {call : Call} {stage : Stage} (h : call.stage.handle ≠ none) (h' : stage.handle ≠ none ∨ stage = .returned) :
    Call.encoded { call with stage } = call.encoded := by
  have hstarted {stage : Stage} (h : stage.handle ≠ none ∨ stage = .returned) :
      stage ≠ .called ∧ stage ≠ .missed ∧ stage ≠ .failed := by
    refine ⟨?_, ?_, ?_⟩ <;> rintro rfl <;> rcases h with h | h <;> first | exact h rfl | cases h
  have hold := encoded_eq (hstarted (.inl h))
  have hnew : Call.encoded { call with stage } = call.method.encodes := encoded_eq (hstarted h')
  rw [hold, hnew]

theorem counted_step {n : ℕ} (hinv : Inv opts c) (hplain : Plain c) (hc : Counted n c) (h : Stepped opts c c')
    (hn : c'.inProgress ≤ n) : Counted n c' := by
  cases h with
  | stays => exact hc
  | calls method stage hstage =>
    have hnew : Call.waits ⟨method, stage⟩ = false ∧ Call.encoded ⟨method, stage⟩ = false := by
      rw [hstage]
      cases method <;> exact ⟨rfl, rfl⟩
    obtain ⟨hlower, hupper⟩ := hc
    refine ⟨?_, ?_⟩
    · show (c.calls ++ [_]).countP Call.encoded ≤ c.made
      rw [List.countP_append, List.countP_singleton, hnew.2]
      exact hlower
    · show c.made + (c.calls ++ [_]).countP Call.waits ≤ n + (c.calls ++ [_]).countP Call.encoded
      rw [List.countP_append, List.countP_append, List.countP_singleton, List.countP_singleton, hnew.1, hnew.2]
      exact hupper
  | @takes i call h rest hi hstage _ =>
    refine counted_set hc hi (.taken h) nofun ?_ rest _
    have hnew : Call.encoded { call with stage := .taken h } = call.method.encodes := encoded_eq ⟨nofun, nofun, nofun⟩
    rw [encoded_eq_false (.inl hstage), hnew]
    exact hplain i call hi hstage
  | @misses i call hi hstage hpool =>
    -- all handles are in use, and no more than there are calls
    have hcount := hinv.sound.count
    rw [hpool, List.length_nil, Nat.zero_add] at hcount
    have hheld : (Lease.held Call.handle (c.move i call .missed).calls).length = c.made := by
      rw [← hcount]
      exact congrArg _ (Lease.held_same hi (by rw [Call.handle, Call.handle, hstage]; rfl))
    have hle := held_waiting_le (c.move i call .missed)
    have he := Slots.countP_set (a := { call with stage := .missed }) Call.encoded hi
    have hnew : Call.encoded { call with stage := .missed } = false := encoded_eq_false (.inr (.inl rfl))
    rw [encoded_eq_false (.inl hstage), hnew] at he
    simp only [Bool.false_eq_true, if_false, Nat.add_zero] at he
    have hencoded : (c.move i call .missed).encoded = c.encoded := he
    rw [hheld] at hle
    refine ⟨hencoded ▸ hc.encoded_le, ?_⟩
    rw [hencoded]
    exact (hle.trans hn).trans (Nat.le_add_right _ _)
  | @makes i call hi hstage =>
    have hw := Slots.countP_set (a := { call with stage := .taken c.made }) Call.waits hi
    have he := Slots.countP_set (a := { call with stage := .taken c.made }) Call.encoded hi
    have hnew : Call.encoded { call with stage := .taken c.made } = call.method.encodes :=
      encoded_eq ⟨nofun, nofun, nofun⟩
    have hnew' : Call.waits { call with stage := .taken c.made } = false := waits_eq_false nofun
    have hwaits : call.waits = !call.method.encodes := by
      rw [Call.waits, hstage]
      cases call.method.encodes <;> rfl
    rw [encoded_eq_false (.inr (.inl hstage)), hnew] at he
    rw [hwaits, hnew'] at hw
    obtain ⟨hlower, hupper⟩ := hc
    unfold Client.encoded at hlower hupper
    unfold Client.waiting at hupper
    refine ⟨?_, ?_⟩
    · show (c.calls.set i _).countP Call.encoded ≤ c.made + 1
      cases hencodes : call.method.encodes <;> simp [hencodes] at he <;> omega
    · show c.made + 1 + (c.calls.set i _).countP Call.waits ≤ n + (c.calls.set i _).countP Call.encoded
      cases hencodes : call.method.encodes <;> simp [hencodes] at he hw <;> omega
  | @fails i call hi hstage =>
    refine counted_set hc hi .failed nofun ?_ _ _
    have hnew : Call.encoded { call with stage := .failed } = false := encoded_eq_false (.inr (.inr rfl))
    rw [hnew, encoded_eq_false (.inr (.inl hstage))]
  | @resets i call h hi hstage =>
    exact counted_set hc hi (.setting h _) nofun (encoded_started (by rw [hstage]; nofun) (.inl nofun)) _ _
  | @sets i call h o v rest hi hstage =>
    exact counted_set hc hi (.setting h rest) nofun (encoded_started (by rw [hstage]; nofun) (.inl nofun)) _ _
  | @goes i call h stage hi hhandle hsame _ =>
    have hmissed : stage ≠ .missed := by
      rintro rfl
      cases hsame
    exact counted_set hc hi stage hmissed
      (encoded_started (by rw [hhandle]; nofun) (.inl (by rw [hsame]; nofun))) _ _
  | @puts i call h hi hstage =>
    exact counted_set hc hi .returned nofun (encoded_started (by rw [hstage]; nofun) (.inr rfl)) _ _

/-- **How many handles there are.**  In a run with at most `n` calls in progress at once, no more
    handles are made than `n` and one for each `urlEncode`, every `urlEncode` makes one, and all of
    them stay: each is in the pool or with a call. -/
theorem made_between (opts : Options) (n : ℕ) (run : List Event)
    (hn : Run.Each (step opts) (fun c e => (step opts c e).inProgress ≤ n) {} run) :
    (exec opts run).encoded ≤ (exec opts run).made ∧ (exec opts run).made ≤ n + (exec opts run).encoded ∧
      (exec opts run).handlePool.length + (Lease.held Call.handle (exec opts run).calls).length =
        (exec opts run).made := by
  have hrun := hn.inv (I := fun c => Inv opts c ∧ Plain c ∧ Counted n c)
    (fun c e h hle =>
      have hstep := stepped_step opts c e
      ⟨inv_step h.1 hstep, plain_step h.2.1 hstep, counted_step h.1 h.2.1 h.2.2 hstep hle⟩)
    ⟨inv_start opts, (fun i call h => by cases h), le_rfl, Nat.zero_le _⟩
  obtain ⟨hinv, -, hlower, hupper⟩ := hrun
  exact ⟨hlower, (Nat.le_add_right _ _).trans hupper, hinv.sound.count⟩

/-- An encoding, and a redirect that takes the handle it leaves. -/
def encodeThenRedirect : List Event :=
  [.call (.urlEncode (lit "a")), .init 0 true, .escape 0, .release 0, .call (.resolveRedirect (lit "b")), .lock 1,
    .reset 1, .setopt 1, .setopt 1, .setopt 1, .setopt 1, .setopt 1, .setopt 1, .setopt 1, .setopt 1, .perform 1]

theorem redirect_owns : (∀ o, (exec {} encodeThenRedirect).options 0 o =
      Assignments.value o (settings {} 1 (.resolveRedirect (lit "b")))) ∧
    (∀ o j p, (exec {} encodeThenRedirect).options 0 o = some (.place j p) → j = 1) ∧
    0 ∉ (exec {} encodeThenRedirect).handlePool ∧
    ∀ j other, (exec {} encodeThenRedirect).calls[j]? = some other → other.handle = some 0 → j = 1 := by
  have hi : (exec {} encodeThenRedirect).calls[1]? = some ⟨.resolveRedirect (lit "b"), .performing 0⟩ := by
    decide +kernel
  exact transfers_own {} encodeThenRedirect hi rfl

theorem one_handle : (exec {} encodeThenRedirect).encoded ≤ (exec {} encodeThenRedirect).made ∧
    (exec {} encodeThenRedirect).made ≤ 1 + (exec {} encodeThenRedirect).encoded ∧
    (exec {} encodeThenRedirect).handlePool.length +
      (Lease.held Call.handle (exec {} encodeThenRedirect).calls).length = (exec {} encodeThenRedirect).made :=
  made_between {} 1 encodeThenRedirect (by decide +kernel)

end CurlClient

end NarMusic
