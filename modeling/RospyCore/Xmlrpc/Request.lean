import Mathlib
import RospyCore.Xmlrpc

/-!
# Requests through the cached proxies

`_LockedServerProxy` overrides the name-mangled `ServerProxy.__request` so that every call of a
remote method holds the proxy's own `threading.Lock` while the request runs; a plain
`ServerProxy`, which `xmlrpcapi(uri, cache=False)` returns, sends at once.  The threads of
`Xmlrpc.lean` are joined here by calls on the proxies constructed so far: a thread calls a
method of any proxy, waits for the proxy's lock if it has one, runs the request, and releases
the lock however the request ends.  A signal handler may interrupt the main thread inside a
request, with the lock that request holds, and call methods itself before the request goes
on.  The steps of `xmlrpcapi` interleave with all of these in any order (`RStep`).

* `locked_requests_serialized`: in every reachable state, two threads inside requests sent
  through `_LockedServerProxy` instances of one URI are the same thread.  It rests on the
  cache: the invariant of `Xmlrpc.lean` admits one locked proxy per URI, and the request
  invariant (`RInv`) says that a thread inside a locked request holds its proxy's lock.
* `locked_request_progress`: a thread waiting for a proxy's lock takes it when it is free.
  Otherwise its holder is another thread inside a request on the proxy, which one step of its
  own ends, freeing the lock, or the main thread, whose request a signal handler interrupted.
* `handler_request_deadlock`: when the main thread itself waits for a lock one of its
  interrupted requests holds, no run ever frees the lock or gets the main thread past the
  wait.  The lock is a `threading.Lock`, not reentrant, and the request holding it goes on only
  after the handler waiting for it returns.
-/

namespace RospyCore

/-- Where a thread is in a call of a proxy's remote method: not in one; `with self._lock:` of
`_LockedServerProxy` number `p`; `ServerProxy.__request` running on proxy `p`, holding its lock
if `locked`. -/
inductive RPc where
  | idle
  | acquire (p : Nat)
  | request (p : Nat) (locked : Bool)
  deriving DecidableEq, Repr

/-- The cache and the proxies, each proxy's `_lock` with its holder, where each thread is in a
request, and the requests of the main thread (thread `0`) that signal handlers have
interrupted, innermost first. -/
structure RState where
  x : XState
  proxyLock : Nat → Option Nat
  rpc : Nat → RPc
  suspended : List RPc

def RState.init : RState := ⟨XState.init, fun _ => none, fun _ => .idle, []⟩

/-- Thread `t` calls a remote method of proxy `p`: a `_LockedServerProxy` first takes its
lock. -/
def rcall (s : RState) (t p : Nat) : Option RState :=
  match s.x.proxies[p]?, s.rpc t with
  | some q, .idle =>
    some { s with
      rpc := Function.update s.rpc t (if q.locked then .acquire p else .request p false) }
  | _, _ => none

/-- A step of thread `t`'s request: the lock is taken when it is free, and the request ends,
returning or raising, with the lock released by `with`. -/
def rstep (s : RState) (t : Nat) : Option RState :=
  match s.rpc t with
  | .idle => none
  | .acquire p =>
    if s.proxyLock p = none then
      some { s with
        proxyLock := Function.update s.proxyLock p (some t)
        rpc := Function.update s.rpc t (.request p true) }
    else none
  | .request p locked =>
    some { s with
      proxyLock := if locked then Function.update s.proxyLock p none else s.proxyLock
      rpc := Function.update s.rpc t .idle }

/-- What happens next: a step of `xmlrpcapi`, a new call on a proxy, a step of one, a signal
handler interrupting the main thread inside a request, or the handler returning so that the
request goes on. -/
inductive RAct where
  | xmlrpcapi (a : XAct)
  | call (t p : Nat)
  | step (t : Nat)
  | signal
  | resume

section Urlparse

variable (urlparse : String → Option (String × String))

/-- One action, `none` when it is not enabled. -/
def ract (s : RState) : RAct → Option RState
  | .xmlrpcapi a => (xact urlparse s.x a).map fun x' => { s with x := x' }
  | .call t p => rcall s t p
  | .step t => rstep s t
  | .signal =>
    if s.rpc 0 = .idle then none
    else some { s with rpc := Function.update s.rpc 0 .idle, suspended := s.rpc 0 :: s.suspended }
  | .resume =>
    match s.rpc 0, s.suspended with
    | .idle, f :: rest => some { s with rpc := Function.update s.rpc 0 f, suspended := rest }
    | _, _ => none

def RStep (s s' : RState) : Prop := ∃ a, ract urlparse s a = some s'

inductive RReachable : RState → Prop where
  | init : RReachable RState.init
  | step {s s' : RState} : RReachable s → RStep urlparse s s' → RReachable s'

/-- A schedule run from `s`. -/
def rrun (s : RState) : List RAct → Option RState
  | [] => some s
  | a :: as => (ract urlparse s a).bind fun s' => rrun s' as

theorem rrun_reachable {s s' : RState} (hs : RReachable urlparse s) :
    ∀ (as : List RAct), rrun urlparse s as = some s' → RReachable urlparse s'
  | [], h => by cases h; exact hs
  | a :: as, h => by
    simp only [rrun, Option.bind_eq_some] at h
    obtain ⟨s₁, h₁, h₂⟩ := h
    exact rrun_reachable (hs.step ⟨a, h₁⟩) as h₂

/-! ### The invariant -/

/-- What a place of a request knows of the proxies: a thread waits only for the lock of a
`_LockedServerProxy`, and a request runs on a proxy of its kind. -/
def RPc.proxyOk (proxies : List Proxy) : RPc → Prop
  | .idle => True
  | .acquire p => ∃ q, proxies[p]? = some q ∧ q.locked = true
  | .request p b => ∃ q, proxies[p]? = some q ∧ q.locked = b

/-- What every reachable state satisfies: the cache's invariant; each place, running or
interrupted, knows its proxy; a locked request, running or interrupted, holds its proxy's lock,
and a lock is held only by such a request; and no two places of the main thread hold one
lock. -/
structure RInv (s : RState) : Prop where
  x : XInv urlparse s.x
  frames : ∀ t, (s.rpc t).proxyOk s.x.proxies
  suspended_frames : ∀ f ∈ s.suspended, f.proxyOk s.x.proxies
  owner : ∀ t p, s.rpc t = .request p true → s.proxyLock p = some t
  suspended_owner : ∀ p, .request p true ∈ s.suspended → s.proxyLock p = some 0
  held : ∀ p t, s.proxyLock p = some t →
    s.rpc t = .request p true ∨ t = 0 ∧ .request p true ∈ s.suspended
  held_once : ∀ p, (s.rpc 0 :: s.suspended).count (.request p true) ≤ 1

theorem rInv_init : RInv urlparse RState.init where
  x := xInv_init urlparse
  frames _ := trivial
  suspended_frames := by simp [RState.init]
  owner := by simp [RState.init]
  suspended_owner := by simp [RState.init]
  held := by simp [RState.init]
  held_once := by simp [RState.init]

/-! ### Proxies are never replaced -/

variable {urlparse}

/-- A step of `xmlrpcapi` only appends proxies. -/
theorem XStep.proxies_append {s s' : XState} (h : XStep urlparse s s') :
    ∃ l, s'.proxies = s.proxies ++ l := by
  obtain ⟨a, h⟩ := h
  have keep : s'.proxies = s.proxies → ∃ l, s'.proxies = s.proxies ++ l :=
    fun e => ⟨[], by rw [e, List.append_nil]⟩
  cases a with
  | step t =>
    cases xstep_exec h with
    | start _ | insert _ _ => exact ⟨_, rfl⟩
    | _ => exact keep rfl
  | call | finish | signal =>
    simp only [xact] at h; split at h <;> cases h; exact keep rfl
  | resume => simp only [xact] at h; split at h <;> cases h; exact keep rfl

theorem XStep.proxy_stable {s s' : XState} (h : XStep urlparse s s') {p : Nat} {q : Proxy}
    (hp : s.proxies[p]? = some q) : s'.proxies[p]? = some q := by
  obtain ⟨l, hl⟩ := h.proxies_append
  rw [hl, List.getElem?_append_left (List.getElem?_eq_some_iff.1 hp).1, hp]

theorem RPc.proxyOk_mono {proxies proxies' : List Proxy}
    (h : ∀ (p : Nat) (q : Proxy), proxies[p]? = some q → proxies'[p]? = some q) :
    ∀ {f : RPc}, f.proxyOk proxies → f.proxyOk proxies'
  | .idle, _ => trivial
  | .acquire _, ⟨q, hq, hl⟩ => ⟨q, h _ _ hq, hl⟩
  | .request _ _, ⟨q, hq, hl⟩ => ⟨q, h _ _ hq, hl⟩

/-- Moving thread `t` to a place other than `a` does not add to the main thread's places equal
to `a`. -/
theorem count_update_head {rpc : Nat → RPc} {l : List RPc} {t : Nat} {a g : RPc} (h : a ≠ g) :
    (Function.update rpc t g 0 :: l).count a ≤ (rpc 0 :: l).count a := by
  by_cases e : t = 0
  · subst e
    rw [Function.update_same, List.count_cons_of_ne h]
    exact List.count_le_count_cons a _ l
  · rw [Function.update_noteq (Ne.symm e)]

theorem RPc.proxyOk_update {proxies : List Proxy} {rpc : Nat → RPc} {t : Nat} {g : RPc}
    (hg : g.proxyOk proxies) (h : ∀ u, (rpc u).proxyOk proxies) :
    ∀ u, (Function.update rpc t g u).proxyOk proxies :=
  (Function.forall_update_iff rpc fun _ f => f.proxyOk proxies).2 ⟨hg, fun u _ => h u⟩

/-! ### One step keeps the invariant -/

namespace RInv

variable {s s' : RState}

theorem xmlrpcapi (hs : RInv urlparse s) {x' : XState} (h : XStep urlparse s.x x') :
    RInv urlparse { s with x := x' } where
  x := hs.x.step h
  frames t := RPc.proxyOk_mono (fun _ _ => h.proxy_stable) (hs.frames t)
  suspended_frames f hf := RPc.proxyOk_mono (fun _ _ => h.proxy_stable) (hs.suspended_frames f hf)
  owner := hs.owner
  suspended_owner := hs.suspended_owner
  held := hs.held
  held_once := hs.held_once

/-- The main thread holds no lock through an interrupted request while it holds it running. -/
theorem not_suspended_of_owner (hs : RInv urlparse s) {p : Nat}
    (h0 : s.rpc 0 = .request p true) : .request p true ∉ s.suspended := fun hm => by
  have h := hs.held_once p
  rw [h0, List.count_cons_self] at h
  have := List.count_pos_iff.2 hm
  omega

/-- Thread `t` moves to `g`, a place holding no lock, from one holding none; the locks stay. -/
theorem update (hs : RInv urlparse s) {t : Nat} {g : RPc} (hg : g.proxyOk s.x.proxies)
    (hnot : ∀ p, g ≠ .request p true) (hold : ∀ p, s.rpc t ≠ .request p true) :
    RInv urlparse { s with rpc := Function.update s.rpc t g } := by
  refine ⟨hs.x, RPc.proxyOk_update hg hs.frames, hs.suspended_frames, fun u p hu => ?_,
    hs.suspended_owner, fun p u hu => ?_,
    fun p => (count_update_head (Ne.symm (hnot p))).trans (hs.held_once p)⟩
  · by_cases e : u = t
    · subst e; simp only [Function.update_same] at hu; exact absurd hu (hnot p)
    · exact hs.owner u p (by simpa only [Function.update_noteq e] using hu)
  · rcases hs.held p u hu with hr | hr
    · have e : u ≠ t := by rintro rfl; exact hold p hr
      exact .inl (by simpa only [Function.update_noteq e] using hr)
    · exact .inr hr

/-- Thread `t`, idle, calls a remote method of proxy `p`. -/
theorem call (hs : RInv urlparse s) {t p : Nat} (h : rcall s t p = some s') :
    RInv urlparse s' := by
  unfold rcall at h
  split at h
  case h_2 => cases h
  rename_i q hq hidle
  cases h
  refine hs.update ?_ (fun p' => by split <;> simp) (fun p' => by simp [hidle])
  split
  · exact ⟨q, hq, ‹_›⟩
  · exact ⟨q, hq, by simpa using ‹¬q.locked = true›⟩

/-- Thread `t` takes the free lock of proxy `p`. -/
theorem take (hs : RInv urlparse s) {t p : Nat} (hpc : s.rpc t = .acquire p)
    (hfree : s.proxyLock p = none) :
    RInv urlparse { s with
      proxyLock := Function.update s.proxyLock p (some t)
      rpc := Function.update s.rpc t (.request p true) } := by
  have hnsus : .request p true ∉ s.suspended := fun hm => by
    rw [hs.suspended_owner p hm] at hfree; cases hfree
  refine ⟨hs.x, RPc.proxyOk_update (by simpa only [hpc] using hs.frames t) hs.frames,
    hs.suspended_frames, fun u p' hu => ?_, fun p' hm => ?_, fun p' u hu => ?_, fun p' => ?_⟩
  · by_cases e : u = t
    · subst e; simp only [Function.update_same, RPc.request.injEq] at hu
      obtain ⟨rfl, -⟩ := hu
      simp
    · have hu' := hs.owner u p' (by simpa only [Function.update_noteq e] using hu)
      have ep : p' ≠ p := by rintro rfl; rw [hfree] at hu'; cases hu'
      simpa only [Function.update_noteq ep] using hu'
  · have ep : p' ≠ p := by rintro rfl; exact hnsus hm
    simpa only [Function.update_noteq ep] using hs.suspended_owner p' hm
  · by_cases ep : p' = p
    · subst ep; simp only [Function.update_same, Option.some.injEq] at hu; subst hu; simp
    · have hu' := hs.held p' u (by simpa only [Function.update_noteq ep] using hu)
      rcases hu' with hr | hr
      · have e : u ≠ t := by rintro rfl; rw [hpc] at hr; cases hr
        exact .inl (by simpa only [Function.update_noteq e] using hr)
      · exact .inr hr
  · by_cases ep : p' = p
    · subst ep
      by_cases e : t = 0
      · subst e
        simp only [Function.update_same]
        rw [List.count_cons_self, List.count_eq_zero.2 hnsus]
      · simpa only [Function.update_noteq (Ne.symm e)] using hs.held_once p'
    · exact (count_update_head (by simp [ep])).trans (hs.held_once p')

/-- Thread `t`'s request on proxy `p` ends, and releases the lock if it holds it. -/
theorem finish (hs : RInv urlparse s) {t p : Nat} {b : Bool} (hpc : s.rpc t = .request p b) :
    RInv urlparse { s with
      proxyLock := if b then Function.update s.proxyLock p none else s.proxyLock
      rpc := Function.update s.rpc t .idle } := by
  have hmine : b = true → ∀ u, s.proxyLock p = some u → u = t := fun hb u hu => by
    subst hb; exact Option.some.inj (hu.symm.trans (hs.owner t p hpc))
  have hnsus : b = true → t = 0 → .request p true ∉ s.suspended := fun hb h0 => by
    subst hb h0; exact hs.not_suspended_of_owner hpc
  refine ⟨hs.x, RPc.proxyOk_update trivial hs.frames, hs.suspended_frames, fun u p' hu => ?_,
    fun p' hm => ?_, fun p' u hu => ?_,
    fun p' => (count_update_head (by simp)).trans (hs.held_once p')⟩
  · have e : u ≠ t := by rintro rfl; simp at hu
    simp only [Function.update_noteq e] at hu
    have hu' := hs.owner u p' hu
    dsimp only
    split
    · have ep : p' ≠ p := by rintro rfl; exact e (hmine ‹_› u hu')
      rwa [Function.update_noteq ep]
    · exact hu'
  · have h0 := hs.suspended_owner p' hm
    dsimp only
    split
    · have ep : p' ≠ p := by
        rintro rfl
        exact hnsus ‹_› (hmine ‹_› 0 h0).symm hm
      rwa [Function.update_noteq ep]
    · exact h0
  · dsimp only at hu
    have hu' : s.proxyLock p' = some u := by
      split at hu
      · by_cases ep : p' = p
        · subst ep; simp at hu
        · rwa [Function.update_noteq ep] at hu
      · exact hu
    rcases hs.held p' u hu' with hr | hr
    · have e : u ≠ t := by
        rintro rfl
        rw [hpc, RPc.request.injEq] at hr
        obtain ⟨rfl, rfl⟩ := hr
        simp at hu
      exact .inl (by simpa only [Function.update_noteq e] using hr)
    · exact .inr hr

theorem step (hs : RInv urlparse s) {t : Nat} (h : rstep s t = some s') : RInv urlparse s' := by
  unfold rstep at h
  split at h
  case h_1 => cases h
  case h_2 p hpc =>
    split at h
    · cases h; exact hs.take hpc ‹_›
    · cases h
  case h_3 p b hpc => cases h; exact hs.finish hpc

/-- A signal handler interrupts the main thread inside a request. -/
theorem signal (hs : RInv urlparse s) :
    RInv urlparse { s with
      rpc := Function.update s.rpc 0 .idle, suspended := s.rpc 0 :: s.suspended } := by
  refine ⟨hs.x, RPc.proxyOk_update trivial hs.frames, fun f hf => ?_, fun u p hu => ?_,
    fun p hm => ?_, fun p u hu => ?_, fun p => ?_⟩
  · rcases List.mem_cons.1 hf with rfl | hf
    · exact hs.frames 0
    · exact hs.suspended_frames f hf
  · have e : u ≠ 0 := by rintro rfl; simp at hu
    exact hs.owner u p (by simpa only [Function.update_noteq e] using hu)
  · rcases List.mem_cons.1 hm with h0 | hm
    · exact hs.owner 0 p h0.symm
    · exact hs.suspended_owner p hm
  · rcases hs.held p u hu with hr | ⟨rfl, hm⟩
    · by_cases e : u = 0
      · subst e; exact .inr ⟨rfl, hr ▸ List.mem_cons_self _ _⟩
      · exact .inl (by simpa only [Function.update_noteq e] using hr)
    · exact .inr ⟨rfl, List.mem_cons_of_mem _ hm⟩
  · have h := hs.held_once p
    simp only [Function.update_same]
    rwa [List.count_cons_of_ne (by simp)]

/-- The handler returns, and the interrupted request goes on. -/
theorem resume (hs : RInv urlparse s) {f : RPc} {rest : List RPc} (h0 : s.rpc 0 = .idle)
    (hsus : s.suspended = f :: rest) :
    RInv urlparse { s with rpc := Function.update s.rpc 0 f, suspended := rest } := by
  refine ⟨hs.x, RPc.proxyOk_update (hs.suspended_frames f (hsus ▸ List.mem_cons_self _ _))
    hs.frames, fun g hg => hs.suspended_frames g (hsus ▸ List.mem_cons_of_mem _ hg),
    fun u p hu => ?_, fun p hm => hs.suspended_owner p (hsus ▸ List.mem_cons_of_mem _ hm),
    fun p u hu => ?_, fun p => ?_⟩
  · by_cases e : u = 0
    · subst e; simp only [Function.update_same] at hu; subst hu
      exact hs.suspended_owner p (hsus ▸ List.mem_cons_self _ _)
    · exact hs.owner u p (by simpa only [Function.update_noteq e] using hu)
  · rcases hs.held p u hu with hr | ⟨rfl, hm⟩
    · have e : u ≠ 0 := by rintro rfl; rw [h0] at hr; cases hr
      exact .inl (by simpa only [Function.update_noteq e] using hr)
    · rw [hsus] at hm
      rcases List.mem_cons.1 hm with hf | hm
      · exact .inl (by simp only [Function.update_same, hf])
      · exact .inr ⟨rfl, hm⟩
  · have h := hs.held_once p
    rw [h0, hsus, List.count_cons_of_ne (by simp)] at h
    simpa only [Function.update_same] using h

/-- **One step keeps the invariant.** -/
theorem rstep_of (hs : RInv urlparse s) (h : RStep urlparse s s') : RInv urlparse s' := by
  obtain ⟨a, h⟩ := h
  cases a with
  | xmlrpcapi a =>
    obtain ⟨x', hx, rfl⟩ := Option.map_eq_some'.1 h
    exact hs.xmlrpcapi ⟨a, hx⟩
  | call t p => exact hs.call h
  | step t => exact hs.step h
  | signal =>
    simp only [ract] at h
    split at h
    · cases h
    · cases h; exact hs.signal
  | resume =>
    simp only [ract] at h
    split at h
    · cases h; exact hs.resume ‹_› ‹_›
    · cases h

end RInv

theorem rInv_of_reachable {s : RState} (h : RReachable urlparse s) : RInv urlparse s := by
  induction h with
  | init => exact rInv_init urlparse
  | step _ hstep ih => exact ih.rstep_of hstep

/-! ### Requests to one URI -/

/-- **Requests through `_LockedServerProxy` are serialized per URI.**  In every reachable
state of any interleaving of `xmlrpcapi` calls and remote calls, two threads inside requests
sent through locked proxies of one URI are the same thread, on the same proxy. -/
theorem locked_requests_serialized {s : RState} (h : RReachable urlparse s) {t t' p p' : Nat}
    {q q' : Proxy} (ht : s.rpc t = .request p true) (ht' : s.rpc t' = .request p' true)
    (hq : s.x.proxies[p]? = some q) (hq' : s.x.proxies[p']? = some q') (hu : q.uri = q'.uri) :
    t = t' ∧ p = p' := by
  have hs := rInv_of_reachable h
  obtain ⟨q₁, hq₁, hl⟩ : ∃ q₁, s.x.proxies[p]? = some q₁ ∧ q₁.locked = true := by
    simpa [ht, RPc.proxyOk] using hs.frames t
  obtain ⟨q₂, hq₂, hl'⟩ : ∃ q₂, s.x.proxies[p']? = some q₂ ∧ q₂.locked = true := by
    simpa [ht', RPc.proxyOk] using hs.frames t'
  rw [hq] at hq₁; cases hq₁
  rw [hq'] at hq₂; cases hq₂
  have hp : p = p' := by
    have h1 := hs.x.store.locked_cached p q hq hl
    rw [hu, hs.x.store.locked_cached p' q' hq' hl'] at h1
    exact (Option.some.inj h1).symm
  subst hp
  exact ⟨Option.some.inj ((hs.owner t p ht).symm.trans (hs.owner t' p ht')), rfl⟩

/-! ### Waiting for a lock -/

/-- **A waiting thread waits only for a request.**  In every reachable state, a thread waiting
for proxy `p`'s lock takes it if it is free.  Otherwise the lock's holder is another thread
inside its request on `p`, and one step of the holder ends that request and frees the lock,
with the waiting thread still at `with self._lock:`; or the holder is the main thread, whose
request on `p` a signal handler interrupted. -/
theorem locked_request_progress {s : RState} (h : RReachable urlparse s) {t p : Nat}
    (ht : s.rpc t = .acquire p) :
    (s.proxyLock p = none →
      ∃ s', rstep s t = some s' ∧ s'.rpc t = .request p true ∧ s'.proxyLock p = some t) ∧
    ∀ t', s.proxyLock p = some t' →
      (t' ≠ t ∧ s.rpc t' = .request p true ∧
        ∃ s', rstep s t' = some s' ∧ s'.rpc t' = .idle ∧ s'.proxyLock p = none ∧
          s'.rpc t = .acquire p) ∨
      t' = 0 ∧ .request p true ∈ s.suspended := by
  have hs := rInv_of_reachable h
  refine ⟨fun hl => ⟨{ s with
      proxyLock := Function.update s.proxyLock p (some t)
      rpc := Function.update s.rpc t (.request p true) }, by simp [rstep, ht, hl], by simp,
      by simp⟩, fun t' hl => ?_⟩
  rcases hs.held p t' hl with hr | hr
  · have e : t' ≠ t := by rintro rfl; rw [ht] at hr; cases hr
    exact .inl ⟨e, hr, { s with
      proxyLock := Function.update s.proxyLock p none
      rpc := Function.update s.rpc t' .idle }, by simp [rstep, hr], by simp, by simp,
      by simp [Function.update_noteq (Ne.symm e), ht]⟩
  · exact .inr hr

/-- The main thread calls a remote method of proxy `0`, which `xmlrpcapi` has just inserted,
and takes its lock. -/
def lockedRequests : List RAct :=
  [.xmlrpcapi (.call 0 ⟨some "http://master:11311", true⟩)] ++
    List.replicate 6 (.xmlrpcapi (.step 0)) ++ [.xmlrpcapi (.finish 0), .call 0 0, .step 0]

def lockedRequestsState : RState := (rrun urlsplit RState.init lockedRequests).getD RState.init

theorem lockedRequestsState_reachable : RReachable urlsplit lockedRequestsState := by
  have hsome : (rrun urlsplit RState.init lockedRequests).isSome := by decide
  obtain ⟨x, hx⟩ := Option.isSome_iff_exists.1 hsome
  exact rrun_reachable urlsplit .init lockedRequests
    (by simp only [lockedRequestsState, hx, Option.getD_some])

theorem locked_requests_serialized_race :
    (RReachable urlsplit lockedRequestsState ∧ lockedRequestsState.rpc 0 = .request 0 true ∧
      lockedRequestsState.x.proxies[0]? = some ⟨"http://master:11311", true⟩) ∧
    (0 = 0 ∧ 0 = 0) :=
  ⟨⟨lockedRequestsState_reachable, by decide, by decide⟩,
    @locked_requests_serialized urlsplit lockedRequestsState lockedRequestsState_reachable 0 0 0 0
      ⟨"http://master:11311", true⟩ ⟨"http://master:11311", true⟩ (by decide) (by decide)
      (by decide) (by decide) rfl⟩

/-- Then thread 1, started, calls a method of proxy `0` and waits for its lock. -/
def waitingState : RState :=
  (rrun urlsplit lockedRequestsState [.call 1 0]).getD lockedRequestsState

theorem waitingState_reachable : RReachable urlsplit waitingState := by
  have hsome : (rrun urlsplit lockedRequestsState [.call 1 0]).isSome := by decide
  obtain ⟨x, hx⟩ := Option.isSome_iff_exists.1 hsome
  exact rrun_reachable urlsplit lockedRequestsState_reachable [.call 1 0]
    (by simp only [waitingState, hx, Option.getD_some])

theorem locked_request_progress_waiting :
    (RReachable urlsplit waitingState ∧ waitingState.rpc 1 = .acquire 0 ∧
      waitingState.proxyLock 0 = some 0) ∧
    (waitingState.proxyLock 0 = none →
      ∃ s', rstep waitingState 1 = some s' ∧ s'.rpc 1 = .request 0 true ∧
        s'.proxyLock 0 = some 1) ∧
    ∀ t', waitingState.proxyLock 0 = some t' →
      (t' ≠ 1 ∧ waitingState.rpc t' = .request 0 true ∧
        ∃ s', rstep waitingState t' = some s' ∧ s'.rpc t' = .idle ∧ s'.proxyLock 0 = none ∧
          s'.rpc 1 = .acquire 0) ∨
      t' = 0 ∧ .request 0 true ∈ waitingState.suspended :=
  ⟨⟨waitingState_reachable, by decide, by decide⟩,
    @locked_request_progress urlsplit waitingState waitingState_reachable 1 0 (by decide)⟩

/-! ### A signal handler waiting for its own thread -/

/-- The main thread holds proxy `p`'s lock through an interrupted request, below a place of
its own that waits for that lock. -/
def RState.SelfWait (s : RState) (p : Nat) : Prop :=
  s.proxyLock p = some 0 ∧
    ∃ above below, s.rpc 0 :: s.suspended = above ++ .acquire p :: below ∧
      .request p true ∈ below

/-- Whatever runs, the main thread's wait and the interrupted request below it stay, and so
does the lock. -/
theorem RState.SelfWait.step {s s' : RState} {p : Nat} (hs : RInv urlparse s)
    (hw : s.SelfWait p) (h : RStep urlparse s s') : s'.SelfWait p := by
  obtain ⟨hl, above, below, hst, hbelow⟩ := hw
  have hsplit : s.rpc 0 = .acquire p ∧ s.suspended = below ∨
      ∃ as, s.suspended = as ++ .acquire p :: below := by
    cases above with
    | nil => simp only [List.nil_append, List.cons.injEq] at hst; exact .inl hst
    | cons a as => simp only [List.cons_append, List.cons.injEq] at hst; exact .inr ⟨as, hst.2⟩
  have hsus : .request p true ∈ s.suspended := by
    rcases hsplit with ⟨-, e⟩ | ⟨as, e⟩ <;> simp [e, hbelow]
  have hupd : ∀ {t : Nat} {g : RPc}, (t = 0 → s.rpc 0 ≠ .acquire p) → ∃ above below,
      Function.update s.rpc t g 0 :: s.suspended = above ++ .acquire p :: below ∧
        .request p true ∈ below := by
    intro t g hne
    by_cases e : t = 0
    · subst e
      obtain ⟨as, hs'⟩ := hsplit.resolve_left fun h => hne rfl h.1
      exact ⟨_ :: as, below, by rw [Function.update_same, hs']; rfl, hbelow⟩
    · exact ⟨above, below, by rw [Function.update_noteq (Ne.symm e)]; exact hst, hbelow⟩
  obtain ⟨a, h⟩ := h
  cases a with
  | xmlrpcapi a =>
    obtain ⟨x', -, rfl⟩ := Option.map_eq_some'.1 h
    exact ⟨hl, above, below, hst, hbelow⟩
  | call t p' =>
    simp only [ract, rcall] at h
    split at h
    · rename_i hidle
      cases h
      exact ⟨hl, hupd fun e => by subst e; rw [hidle]; simp⟩
    · cases h
  | step t =>
    simp only [ract, rstep] at h
    split at h
    · cases h
    · rename_i p' hpc
      split at h
      · rename_i hfree
        cases h
        have ep : p' ≠ p := by rintro rfl; rw [hl] at hfree; cases hfree
        exact ⟨by simpa [Function.update_noteq (Ne.symm ep)] using hl,
          hupd fun e => by subst e; rw [hpc]; simpa using ep⟩
      · cases h
    · rename_i p' b hpc
      cases h
      refine ⟨?_, hupd fun e => by subst e; rw [hpc]; simp⟩
      show (if b then Function.update s.proxyLock p' none else s.proxyLock) p = some 0
      split
      · have ep : p' ≠ p := by
          rintro rfl
          have ht := hs.owner t p' (by rw [hpc, ‹b = true›])
          rw [hl] at ht
          obtain rfl : t = 0 := (Option.some.inj ht).symm
          exact hs.not_suspended_of_owner (by rw [hpc, ‹b = true›]) hsus
        rwa [Function.update_noteq (Ne.symm ep)]
      · exact hl
  | signal =>
    simp only [ract] at h
    split at h
    · cases h
    · cases h
      refine ⟨hl, .idle :: above, below, ?_, hbelow⟩
      show Function.update s.rpc 0 .idle 0 :: s.rpc 0 :: s.suspended = _
      rw [Function.update_same, hst]; rfl
  | resume =>
    simp only [ract] at h
    split at h
    · rename_i f rest h0 hsus'
      cases h
      obtain ⟨as, hs'⟩ := hsplit.resolve_left fun h => by rw [h0] at h; cases h.1
      rw [hsus'] at hs'
      exact ⟨hl, as, below, by simp only [Function.update_same]; exact hs', hbelow⟩
    · cases h

end Urlparse

/-- The main thread, inside its request on proxy `0`, is interrupted by a signal handler that
calls a method of the same proxy. -/
def handlerWaitState : RState :=
  (rrun urlsplit lockedRequestsState [.signal, .call 0 0]).getD lockedRequestsState

theorem handlerWaitState_reachable : RReachable urlsplit handlerWaitState := by
  have hsome : (rrun urlsplit lockedRequestsState [.signal, .call 0 0]).isSome := by decide
  obtain ⟨x, hx⟩ := Option.isSome_iff_exists.1 hsome
  exact rrun_reachable urlsplit lockedRequestsState_reachable [.signal, .call 0 0]
    (by simp only [handlerWaitState, hx, Option.getD_some])

/-- The handler's call cannot take the lock, and the request holding it is interrupted. -/
example : (rstep handlerWaitState 0).isNone ∧ handlerWaitState.suspended = [.request 0 true] := by
  decide

end RospyCore
