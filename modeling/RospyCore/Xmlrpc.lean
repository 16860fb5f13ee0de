import RospyCore.Rosrpc

/-!
# The `xmlrpcapi` proxy cache

`xmlrpcapi(uri)` returns a `_LockedServerProxy` from `_xmlrpc_cache`, creating it on first
use under double-checked locking: a test without the lock, then `_xmlrpc_lock`, a second test,
the insertion.  Here each of these is one step of a thread, and the threads' steps interleave
in any order (`XStep`).  A signal handler may interrupt the main thread anywhere and call
`xmlrpcapi` itself before the main thread goes on (`XAct.signal`, `XAct.resume`).  A ghost
list records every proxy constructed, in order; a proxy is its position in that list.

`ServerProxy.__init__` raises `OSError('unsupported XML-RPC protocol')` for a scheme other
than `http` and `https`: `_LockedServerProxy(uri)` then raises inside `with _xmlrpc_lock`, the
lock is released and the cache gets no entry.  `urlparse.urlparse(uri)` may itself raise
`ValueError`.

`XInv` is the invariant of every reachable state (`xInv_of_reachable`): the cache holds only
locked proxies of their own `http` or `https` URI and every locked proxy is in it
(`XStoreOk`), `_xmlrpc_lock` is held by the one place in the critical section (`XLockOk`), and
each place of a call knows what it read of the cache (`frameOk`).  From it,
`xmlrpcapi_cache_sound`:

* one locked proxy per URI, and an entry never changes;
* a cached call on a valid URI that has returned returned the URI's entry;
* a cached call on a valid URI ends when it and the lock's holder run (`xfinish`), unless a
  signal handler has interrupted the main thread inside `with _xmlrpc_lock`: within eight
  steps, with the URI's entry for an `http` or `https` URI, with `OSError` and no entry for
  any other scheme.  The bound is a measure (`XState.callLeft`) that each step lowers.

`urlparse(uri)[0:2]`, the scheme and the network location, or `none` where `urlparse` raises,
is a parameter of the section: the cache does not depend on how they are computed.
-/

namespace RospyCore

/-- A `ServerProxy` the code constructed: its URI, and whether it is a `_LockedServerProxy`. -/
structure Proxy where
  uri : String
  locked : Bool
  deriving DecidableEq, Repr

/-- A call `xmlrpcapi(uri, cache)`. -/
structure XCall where
  uri : Option String
  cache : Bool
  deriving DecidableEq, Repr

/-- What `xmlrpcapi` raises: the `ValueError` of `urlparse.urlparse(uri)`, or the
`OSError('unsupported XML-RPC protocol')` of `ServerProxy.__init__`. -/
inductive XError where
  | valueError
  | osError
  deriving DecidableEq, Repr

/-- Where a thread is in `xmlrpcapi`: not in it; called; `if uri not in _xmlrpc_cache` without
the lock; `with _xmlrpc_lock`; the same test under the lock;
`_xmlrpc_cache[uri] = _LockedServerProxy(uri)` and the release of the lock;
`return _xmlrpc_cache[uri]`; returned `result`, a proxy or `None`; raised `e`. -/
inductive XPc where
  | idle
  | start (call : XCall)
  | test (uri : String)
  | acquire (uri : String)
  | recheck (uri : String)
  | insert (uri : String)
  | read (uri : String)
  | done (call : XCall) (result : Option Nat)
  | raised (call : XCall) (e : XError)
  deriving DecidableEq, Repr

/-- The cache, the holder of `_xmlrpc_lock`, the proxies constructed so far, where each thread
is, and the calls of the main thread (thread `0`) that signal handlers have interrupted,
innermost first. -/
structure XState where
  xmlrpcCache : String → Option Nat
  xmlrpcLock : Option Nat
  proxies : List Proxy
  pc : Nat → XPc
  suspended : List XPc

def XState.init : XState := ⟨fun _ => none, none, [], fun _ => .idle, []⟩

/-- Thread `t` moves to `p`. -/
def XState.setPc (s : XState) (t : Nat) (p : XPc) : XState :=
  { s with pc := Function.update s.pc t p }

@[simp] theorem XState.setPc_pc (s : XState) (t : Nat) (p : XPc) :
    (s.setPc t p).pc = Function.update s.pc t p := rfl

@[simp] theorem XState.setPc_xmlrpcCache (s : XState) (t : Nat) (p : XPc) :
    (s.setPc t p).xmlrpcCache = s.xmlrpcCache := rfl

@[simp] theorem XState.setPc_xmlrpcLock (s : XState) (t : Nat) (p : XPc) :
    (s.setPc t p).xmlrpcLock = s.xmlrpcLock := rfl

@[simp] theorem XState.setPc_proxies (s : XState) (t : Nat) (p : XPc) :
    (s.setPc t p).proxies = s.proxies := rfl

@[simp] theorem XState.setPc_suspended (s : XState) (t : Nat) (p : XPc) :
    (s.setPc t p).suspended = s.suspended := rfl

/-- Between the second test and the insertion, holding `_xmlrpc_lock`. -/
def XPc.critical : XPc → Bool
  | .recheck _ | .insert _ => true
  | _ => false

/-- Returned or raised. -/
def XPc.ended : XPc → Bool
  | .done _ _ | .raised _ _ => true
  | _ => false

/-- The URI of the cached call a place belongs to. -/
def XPc.uriOf : XPc → Option String
  | .start ⟨some u, true⟩ | .test u | .acquire u | .recheck u | .insert u | .read u
  | .done ⟨some u, true⟩ _ | .raised ⟨some u, true⟩ _ => some u
  | _ => none

section Urlparse

variable (urlparse : String → Option (String × String))

/-- `not uriValidate[0] or not uriValidate[1]` fails. -/
def validUri (uri : String) : Bool :=
  match urlparse uri with
  | some (scheme, netloc) => scheme != "" && netloc != ""
  | none => false

/-- `ServerProxy.__init__`'s test `p.scheme not in ("http", "https")` fails. -/
def httpUri (uri : String) : Bool :=
  match urlparse uri with
  | some (scheme, _) => scheme == "http" || scheme == "https"
  | none => false

/-- `xmlrpcclient.ServerProxy(uri)`, or `_LockedServerProxy(uri)` when `locked`: the new
proxy, or the `OSError` of `ServerProxy.__init__`. -/
def serverProxy (uri : String) (locked : Bool) : Except XError Proxy :=
  if httpUri urlparse uri then .ok ⟨uri, locked⟩ else .error .osError

/-- The statements of `xmlrpcapi(uri, cache)` before the cache, which touch nothing shared:
`return None` for no URI or one with an empty scheme or network location, the `ValueError` of
`urlparse`, and for `cache=False` `return xmlrpcclient.ServerProxy(uri)`; for `cache=True` the
test of the cache is next.  The new proxy, if any, is number `next`. -/
def xbegin (call : XCall) (next : Nat) : XPc × Option Proxy :=
  match call with
  | ⟨none, cache⟩ => (.done ⟨none, cache⟩ none, none)
  | ⟨some uri, cache⟩ =>
    match urlparse uri with
    | none => (.raised ⟨some uri, cache⟩ .valueError, none)
    | some (scheme, netloc) =>
      if scheme = "" ∨ netloc = "" then (.done ⟨some uri, cache⟩ none, none)
      else if cache then (.test uri, none)
      else
        match serverProxy urlparse uri false with
        | .ok q => (.done ⟨some uri, cache⟩ (some next), some q)
        | .error e => (.raised ⟨some uri, cache⟩ e, none)

/-- A step of thread `t`, or `none` when it waits for the lock or is not in a running call. -/
def xstep (s : XState) (t : Nat) : Option XState :=
  match s.pc t with
  | .start c =>
    let r := xbegin urlparse c s.proxies.length
    some { s.setPc t r.1 with proxies := s.proxies ++ r.2.toList }
  | .test uri => some (s.setPc t (if s.xmlrpcCache uri = none then .acquire uri else .read uri))
  | .acquire uri =>
    if s.xmlrpcLock = none then some { s.setPc t (.recheck uri) with xmlrpcLock := some t }
    else none
  | .recheck uri =>
    if s.xmlrpcCache uri = none then some (s.setPc t (.insert uri))
    else some { s.setPc t (.read uri) with xmlrpcLock := none }
  | .insert uri =>
    match serverProxy urlparse uri true with
    | .ok q =>
      some { s.setPc t (.read uri) with
        xmlrpcCache := Function.update s.xmlrpcCache uri (some s.proxies.length)
        proxies := s.proxies ++ [q]
        xmlrpcLock := none }
    | .error e => some { s.setPc t (.raised ⟨some uri, true⟩ e) with xmlrpcLock := none }
  | .read uri => some (s.setPc t (.done ⟨some uri, true⟩ (s.xmlrpcCache uri)))
  | .idle | .done _ _ | .raised _ _ => none

/-- What happens next: an idle thread calls `xmlrpcapi`, a thread takes a step, a thread whose
call has ended goes back to its own code, a signal handler interrupts the main thread inside
a call, or the handler returns and the interrupted call goes on. -/
inductive XAct where
  | call (t : Nat) (c : XCall)
  | step (t : Nat)
  | finish (t : Nat)
  | signal
  | resume
  deriving DecidableEq, Repr

/-- One action, `none` when it is not enabled. -/
def xact (s : XState) : XAct → Option XState
  | .call t c => if s.pc t = .idle then some (s.setPc t (.start c)) else none
  | .step t => xstep urlparse s t
  | .finish t => if (s.pc t).ended then some (s.setPc t .idle) else none
  | .signal =>
    if s.pc 0 = .idle then none
    else some { s.setPc 0 .idle with suspended := s.pc 0 :: s.suspended }
  | .resume =>
    match s.pc 0, s.suspended with
    | .idle, f :: rest => some { s.setPc 0 f with suspended := rest }
    | _, _ => none

def XStep (s s' : XState) : Prop := ∃ a, xact urlparse s a = some s'

inductive XReachable : XState → Prop where
  | init : XReachable XState.init
  | step {s s' : XState} : XReachable s → XStep urlparse s s' → XReachable s'

/-- A schedule run from `s`. -/
def xrun (s : XState) : List XAct → Option XState
  | [] => some s
  | a :: as => (xact urlparse s a).bind fun s' => xrun s' as

theorem xrun_reachable {s s' : XState} (hs : XReachable urlparse s) :
    ∀ (as : List XAct), xrun urlparse s as = some s' → XReachable urlparse s'
  | [], h => by cases h; exact hs
  | a :: as, h => by
    simp only [xrun, Option.bind_eq_some] at h
    obtain ⟨s₁, h₁, h₂⟩ := h
    exact xrun_reachable (hs.step ⟨a, h₁⟩) as h₂

theorem XReachable.steps {s s' : XState} (hs : XReachable urlparse s)
    (h : Relation.ReflTransGen (XStep urlparse) s s') : XReachable urlparse s' := by
  induction h with
  | refl => exact hs
  | tail _ hstep ih => exact ih.step hstep

/-! ### The statements of a step -/

/-- What a step of thread `t` does, one constructor per statement of `xstep`. -/
inductive XExec (s : XState) (t : Nat) : XState → Prop where
  | start {c : XCall} : s.pc t = .start c →
      XExec s t { s.setPc t (xbegin urlparse c s.proxies.length).1 with
        proxies := s.proxies ++ (xbegin urlparse c s.proxies.length).2.toList }
  | test {u : String} : s.pc t = .test u →
      XExec s t (s.setPc t (if s.xmlrpcCache u = none then .acquire u else .read u))
  | acquire {u : String} : s.pc t = .acquire u → s.xmlrpcLock = none →
      XExec s t { s.setPc t (.recheck u) with xmlrpcLock := some t }
  | recheckMiss {u : String} : s.pc t = .recheck u → s.xmlrpcCache u = none →
      XExec s t (s.setPc t (.insert u))
  | recheckHit {u : String} : s.pc t = .recheck u → s.xmlrpcCache u ≠ none →
      XExec s t { s.setPc t (.read u) with xmlrpcLock := none }
  | insert {u : String} {q : Proxy} : s.pc t = .insert u → serverProxy urlparse u true = .ok q →
      XExec s t { s.setPc t (.read u) with
        xmlrpcCache := Function.update s.xmlrpcCache u (some s.proxies.length)
        proxies := s.proxies ++ [q]
        xmlrpcLock := none }
  | insertRaise {u : String} {e : XError} : s.pc t = .insert u →
      serverProxy urlparse u true = .error e →
      XExec s t { s.setPc t (.raised ⟨some u, true⟩ e) with xmlrpcLock := none }
  | read {u : String} : s.pc t = .read u →
      XExec s t (s.setPc t (.done ⟨some u, true⟩ (s.xmlrpcCache u)))

variable {urlparse}

theorem xstep_exec {s s' : XState} {t : Nat} (h : xstep urlparse s t = some s') :
    XExec urlparse s t s' := by
  unfold xstep at h
  split at h
  · cases h; exact .start ‹_›
  · cases h; exact .test ‹_›
  · split at h
    · cases h; exact .acquire ‹_› ‹_›
    · cases h
  · split at h <;> cases h
    · exact .recheckMiss ‹_› ‹_›
    · exact .recheckHit ‹_› ‹_›
  · split at h <;> cases h
    · exact .insert ‹_› ‹_›
    · exact .insertRaise ‹_› ‹_›
  · cases h; exact .read ‹_›
  all_goals cases h

theorem XExec.xstep_eq {s s' : XState} {t : Nat} (h : XExec urlparse s t s') :
    xstep urlparse s t = some s' := by
  cases h <;> simp_all [xstep]

theorem XExec.suspended {s s' : XState} {t : Nat} (h : XExec urlparse s t s') :
    s'.suspended = s.suspended := by
  cases h <;> rfl

theorem XExec.pc_other {s s' : XState} {t t' : Nat} (h : XExec urlparse s t s') (e : t' ≠ t) :
    s'.pc t' = s.pc t' := by
  cases h <;> simp [Function.update_noteq e]

theorem serverProxy_ok {uri : String} {locked : Bool} {q : Proxy}
    (h : serverProxy urlparse uri locked = .ok q) :
    httpUri urlparse uri = true ∧ q = ⟨uri, locked⟩ := by
  unfold serverProxy at h
  split at h
  · cases h; exact ⟨‹_›, rfl⟩
  · cases h

theorem serverProxy_error {uri : String} {locked : Bool} {e : XError}
    (h : serverProxy urlparse uri locked = .error e) :
    httpUri urlparse uri = false ∧ e = .osError := by
  unfold serverProxy at h
  split at h
  · cases h
  · rename_i hh
    cases h; exact ⟨by simpa using hh, rfl⟩

/-! ### The invariant -/

section Invariant

variable (urlparse)

/-- What a place of a call knows of the cache: a thread about to insert finds its URI missing,
one about to read finds it present, a cached call on a valid URI that returned returned the
URI's entry, and one that raised raised `OSError` for a scheme other than `http` and
`https`. -/
def frameOk (cache : String → Option Nat) : XPc → Prop
  | .insert u => cache u = none
  | .read u => cache u ≠ none
  | .done ⟨some u, true⟩ r => validUri urlparse u = true → ∃ p, r = some p ∧ cache u = some p
  | .raised ⟨some u, true⟩ e =>
    validUri urlparse u = true → e = .osError ∧ httpUri urlparse u = false
  | _ => True

/-- The cache holds locked proxies of their own `http` or `https` URI, and every locked proxy
is in it. -/
structure XStoreOk (cache : String → Option Nat) (proxies : List Proxy) : Prop where
  cache_locked : ∀ u p, cache u = some p → proxies[p]? = some ⟨u, true⟩
  cache_http : ∀ u p, cache u = some p → httpUri urlparse u = true
  locked_cached : ∀ p q, proxies[p]? = some q → q.locked → cache q.uri = some p

/-- `_xmlrpc_lock` is held exactly by the place in the critical section, and at most one place
of the main thread, running or interrupted, is in it. -/
structure XLockOk (lock : Option Nat) (pc : Nat → XPc) (suspended : List XPc) : Prop where
  critical_owner : ∀ t, (pc t).critical → lock = some t
  suspended_owner : ∀ f ∈ suspended, f.critical → lock = some 0
  owner_critical : ∀ t, lock = some t → (pc t).critical ∨ t = 0 ∧ ∃ f ∈ suspended, f.critical
  critical_once : (pc 0 :: suspended).countP (fun f => f.critical) ≤ 1

/-- What every reachable state satisfies. -/
structure XInv (s : XState) : Prop where
  store : XStoreOk urlparse s.xmlrpcCache s.proxies
  lock : XLockOk s.xmlrpcLock s.pc s.suspended
  frames : ∀ t, frameOk urlparse s.xmlrpcCache (s.pc t)
  suspended_frames : ∀ f ∈ s.suspended, frameOk urlparse s.xmlrpcCache f

theorem xInv_init : XInv urlparse XState.init where
  store := ⟨by simp [XState.init], by simp [XState.init], by simp [XState.init]⟩
  lock := ⟨by simp [XState.init, XPc.critical], by simp [XState.init], by simp [XState.init],
    by simp [XState.init, XPc.critical]⟩
  frames _ := trivial
  suspended_frames := by simp [XState.init]

end Invariant

/-! ### The lock -/

namespace XLockOk

variable {lock : Option Nat} {pc : Nat → XPc} {suspended : List XPc}

theorem critical_unique (hl : XLockOk lock pc suspended) {t t' : Nat} (ht : (pc t).critical)
    (ht' : (pc t').critical) : t = t' :=
  Option.some.inj ((hl.critical_owner t ht).symm.trans (hl.critical_owner t' ht'))

/-- While the main thread runs in the critical section, no interrupted call of it is there. -/
theorem suspended_calm (hl : XLockOk lock pc suspended) (h0 : (pc 0).critical = true) :
    ∀ f ∈ suspended, f.critical = false := by
  have h := hl.critical_once
  rw [List.countP_cons, if_pos h0] at h
  have hz := List.countP_eq_zero.1 (by omega : suspended.countP (fun f => f.critical) = 0)
  exact fun f hf => by simpa using hz f hf

/-- A thread moves to a place in the critical section exactly when it was in it. -/
theorem update (hl : XLockOk lock pc suspended) {t : Nat} {p : XPc}
    (hp : p.critical = (pc t).critical) : XLockOk lock (Function.update pc t p) suspended where
  critical_owner := (Function.forall_update_iff pc fun t f => f.critical → lock = some t).2
    ⟨fun h => hl.critical_owner t (hp ▸ h), fun t' _ => hl.critical_owner t'⟩
  suspended_owner := hl.suspended_owner
  owner_critical t' h := by
    by_cases e : t' = t
    · subst e; simpa [hp] using hl.owner_critical t' h
    · simpa [Function.update_noteq e] using hl.owner_critical t' h
  critical_once := by
    by_cases e : t = 0
    · subst e; simpa [List.countP_cons, hp] using hl.critical_once
    · simpa [Function.update_noteq (Ne.symm e)] using hl.critical_once

/-- `with _xmlrpc_lock` when the lock is free: thread `t` enters the critical section. -/
theorem acquire (hl : XLockOk lock pc suspended) (hfree : lock = none) {t : Nat} {p : XPc}
    (hp : p.critical = true) : XLockOk (some t) (Function.update pc t p) suspended where
  critical_owner t' h := by
    by_cases e : t' = t
    · rw [e]
    · rw [Function.update_noteq e] at h
      rw [hl.critical_owner t' h] at hfree; cases hfree
  suspended_owner f hf hc := by rw [hl.suspended_owner f hf hc] at hfree; cases hfree
  owner_critical t' h := by
    obtain rfl : t = t' := Option.some.inj h
    simp [hp]
  critical_once := by
    have hs : suspended.countP (fun f => f.critical) = 0 :=
      List.countP_eq_zero.2 fun f hf hc => by
        rw [hl.suspended_owner f hf (by simpa using hc)] at hfree; cases hfree
    rw [List.countP_cons, hs]
    split <;> omega

/-- The thread in the critical section leaves it and releases the lock. -/
theorem release (hl : XLockOk lock pc suspended) {t : Nat} (ht : (pc t).critical = true)
    {p : XPc} (hp : p.critical = false) : XLockOk none (Function.update pc t p) suspended where
  critical_owner t' h := by
    have e : t' ≠ t := by rintro rfl; simp [hp] at h
    rw [Function.update_noteq e] at h
    exact absurd (hl.critical_unique h ht) e
  suspended_owner f hf hc := by
    have h0 := (hl.suspended_owner f hf hc).symm.trans (hl.critical_owner t ht)
    obtain rfl : t = 0 := (Option.some.inj h0).symm
    simp [hl.suspended_calm ht f hf] at hc
  owner_critical _ h := by cases h
  critical_once := by
    have h := hl.critical_once
    rw [List.countP_cons] at h ⊢
    by_cases e : t = 0
    · subst e
      rw [if_pos ht] at h
      simp [hp]
      omega
    · rwa [Function.update_noteq (Ne.symm e)]

/-- A signal handler interrupts the main thread. -/
theorem signal (hl : XLockOk lock pc suspended) :
    XLockOk lock (Function.update pc 0 .idle) (pc 0 :: suspended) where
  critical_owner := (Function.forall_update_iff pc fun t f => f.critical → lock = some t).2
    ⟨nofun, fun t' _ => hl.critical_owner t'⟩
  suspended_owner f hf hc := by
    rcases List.mem_cons.1 hf with rfl | hf
    · exact hl.critical_owner 0 hc
    · exact hl.suspended_owner f hf hc
  owner_critical t' h := by
    rcases hl.owner_critical t' h with hc | ⟨rfl, f, hf, hc⟩
    · by_cases e : t' = 0
      · subst e; exact .inr ⟨rfl, _, List.mem_cons_self _ _, hc⟩
      · exact .inl (by rwa [Function.update_noteq e])
    · exact .inr ⟨rfl, f, List.mem_cons_of_mem _ hf, hc⟩
  critical_once := by simpa [List.countP_cons, XPc.critical] using hl.critical_once

/-- The handler returns and the interrupted call goes on. -/
theorem resume (hl : XLockOk lock pc suspended) {f : XPc} {rest : List XPc}
    (h0 : pc 0 = .idle) (hs : suspended = f :: rest) :
    XLockOk lock (Function.update pc 0 f) rest where
  critical_owner := (Function.forall_update_iff pc fun t f => f.critical → lock = some t).2
    ⟨hl.suspended_owner f (hs ▸ List.mem_cons_self _ _), fun t' _ => hl.critical_owner t'⟩
  suspended_owner g hg hc := hl.suspended_owner g (hs ▸ List.mem_cons_of_mem _ hg) hc
  owner_critical t' h := by
    rcases hl.owner_critical t' h with hc | ⟨rfl, g, hg, hc⟩
    · have e : t' ≠ 0 := by rintro rfl; rw [h0] at hc; cases hc
      exact .inl (by rwa [Function.update_noteq e])
    · rw [hs] at hg
      rcases List.mem_cons.1 hg with rfl | hg
      · exact .inl (by rwa [Function.update_same])
      · exact .inr ⟨rfl, g, hg, hc⟩
  critical_once := by
    have h := hl.critical_once
    rw [h0, hs] at h
    simpa [List.countP_cons, XPc.critical] using h

end XLockOk

/-! ### The cache and the proxies -/

namespace XStoreOk

variable {cache : String → Option Nat} {proxies : List Proxy}

/-- Proxies that are not locked, appended: `ServerProxy(uri)` for `cache=False`. -/
theorem append_unlocked (hs : XStoreOk urlparse cache proxies) {l : List Proxy}
    (hl : ∀ q ∈ l, q.locked = false) : XStoreOk urlparse cache (proxies ++ l) where
  cache_locked u p hp := by
    have h := hs.cache_locked u p hp
    rw [List.getElem?_append_left (List.getElem?_eq_some_iff.1 h).1, h]
  cache_http := hs.cache_http
  locked_cached p q hp hq := by
    by_cases hp' : p < proxies.length
    · rw [List.getElem?_append_left hp'] at hp
      exact hs.locked_cached p q hp hq
    · rw [List.getElem?_append_right (not_lt.1 hp')] at hp
      simp [hl q (List.getElem?_mem hp)] at hq

/-- `_xmlrpc_cache[uri] = _LockedServerProxy(uri)` for a missing `http` or `https` URI. -/
theorem insert (hs : XStoreOk urlparse cache proxies) {u : String} (hmiss : cache u = none)
    (hu : httpUri urlparse u = true) :
    XStoreOk urlparse (Function.update cache u (some proxies.length))
      (proxies ++ [⟨u, true⟩]) where
  cache_locked v p hp := by
    by_cases e : v = u
    · subst e; simp at hp; subst hp; simp
    · rw [Function.update_noteq e] at hp
      have h := hs.cache_locked v p hp
      rw [List.getElem?_append_left (List.getElem?_eq_some_iff.1 h).1, h]
  cache_http v p hp := by
    by_cases e : v = u
    · subst e; exact hu
    · rw [Function.update_noteq e] at hp; exact hs.cache_http v p hp
  locked_cached p q hp hq := by
    by_cases hp' : p < proxies.length
    · rw [List.getElem?_append_left hp'] at hp
      have h := hs.locked_cached p q hp hq
      have e : q.uri ≠ u := by rintro rfl; rw [hmiss] at h; cases h
      rwa [Function.update_noteq e]
    · rw [List.getElem?_append_right (not_lt.1 hp')] at hp
      have hlt := (List.getElem?_eq_some_iff.1 hp).1
      simp only [List.length_singleton] at hlt
      rw [show p - proxies.length = 0 by omega, List.getElem?_cons_zero, Option.some.injEq] at hp
      subst hp
      simp [show p = proxies.length by omega]

end XStoreOk

/-! ### What each place knows -/

section Frames

variable {cache : String → Option Nat}

/-- Storing an entry for a missing URI keeps what every place knows, but a place about to
insert that URI. -/
theorem frameOk_insert {u : String} {n : Nat} (hmiss : cache u = none) {f : XPc}
    (hf : frameOk urlparse cache f) (hne : f ≠ .insert u) :
    frameOk urlparse (Function.update cache u (some n)) f := by
  have hsome : ∀ {v p}, cache v = some p → Function.update cache u (some n) v = some p :=
    fun {v p} hv => by
      have e : v ≠ u := by rintro rfl; rw [hmiss] at hv; cases hv
      rwa [Function.update_noteq e]
  cases f with
  | insert v =>
    have e : v ≠ u := by rintro rfl; exact hne rfl
    show Function.update cache u (some n) v = none
    rwa [Function.update_noteq e]
  | read v =>
    obtain ⟨p, hp⟩ := Option.ne_none_iff_exists'.1 hf
    show Function.update cache u (some n) v ≠ none
    rw [hsome hp]; simp
  | done c r =>
    obtain ⟨_ | v, _ | _⟩ := c <;>
      first | trivial | exact fun hv => let ⟨p, hr, hp⟩ := hf hv; ⟨p, hr, hsome hp⟩
  | raised c e => obtain ⟨_ | v, _ | _⟩ := c <;> trivial
  | _ => trivial

theorem update_frames {pc : Nat → XPc} (h : ∀ t, frameOk urlparse cache (pc t)) {t : Nat}
    {p : XPc} (hp : frameOk urlparse cache p) :
    ∀ t', frameOk urlparse cache (Function.update pc t p t') :=
  (Function.forall_update_iff pc fun _ f => frameOk urlparse cache f).2 ⟨hp, fun t' _ => h t'⟩

end Frames

/-! ### `xbegin` -/

section Begin

variable {c : XCall} {n : Nat}

theorem xbegin_critical : (xbegin urlparse c n).1.critical = false := by
  unfold xbegin
  repeat' split
  all_goals rfl

theorem xbegin_unlocked : ∀ q ∈ (xbegin urlparse c n).2.toList, q.locked = false := by
  unfold xbegin
  repeat' split
  all_goals try simp
  exact (serverProxy_ok ‹_›).2 ▸ rfl

theorem xbegin_frameOk (cache : String → Option Nat) :
    frameOk urlparse cache (xbegin urlparse c n).1 := by
  unfold xbegin
  split
  · rcases ‹Bool› with _ | _ <;> trivial
  · rename_i uri cache'
    split
    · rcases cache' with _ | _
      · trivial
      · intro hv; simp [validUri, ‹urlparse uri = none›] at hv
    · rename_i scheme netloc hparse
      split_ifs with hempty hc
      · rcases cache' with _ | _
        · trivial
        · intro hv
          simp only [validUri, hparse, bne_iff_ne, ne_eq, Bool.and_eq_true] at hv
          exact absurd hempty (by tauto)
      · trivial
      · split <;> (rcases cache' with _ | _) <;> trivial

/-- A cached call begins with the test of the cache, or ends at once. -/
theorem xbegin_cached (u : String) :
    (xbegin urlparse ⟨some u, true⟩ n).1 = .test u ∨
      (xbegin urlparse ⟨some u, true⟩ n).1.ended = true ∧
        (xbegin urlparse ⟨some u, true⟩ n).1.uriOf = some u := by
  simp only [xbegin]
  split
  · exact .inr ⟨rfl, rfl⟩
  · split_ifs <;> first | exact .inl rfl | exact .inr ⟨rfl, rfl⟩

end Begin

/-! ### One step keeps the invariant -/

namespace XInv

variable {s : XState}

/-- A thread moving to a place that knows what it needs, as much inside the critical section
as before. -/
theorem setPc (hs : XInv urlparse s) {t : Nat} {p : XPc}
    (hp : p.critical = (s.pc t).critical) (hf : frameOk urlparse s.xmlrpcCache p) :
    XInv urlparse (s.setPc t p) where
  store := hs.store
  lock := hs.lock.update hp
  frames := update_frames hs.frames hf
  suspended_frames := hs.suspended_frames

/-- A place about to insert `u` is the running thread's. -/
theorem insert_unique (hs : XInv urlparse s) {t : Nat} {u : String} (ht : s.pc t = .insert u)
    {f : XPc} (hf : f = .insert u) :
    (∀ t', s.pc t' = f → t' = t) ∧ f ∉ s.suspended := by
  have hct : (s.pc t).critical = true := by rw [ht]; rfl
  subst hf
  refine ⟨fun t' h => hs.lock.critical_unique (by rw [h]; rfl) hct, fun hm => ?_⟩
  have h0 := (hs.lock.suspended_owner _ hm rfl).symm.trans (hs.lock.critical_owner t hct)
  obtain rfl : t = 0 := (Option.some.inj h0).symm
  have := hs.lock.suspended_calm hct _ hm
  simp [XPc.critical] at this

theorem exec (hs : XInv urlparse s) {t : Nat} {s' : XState} (h : XExec urlparse s t s') :
    XInv urlparse s' := by
  cases h with
  | @start c hpc =>
    exact ⟨hs.store.append_unlocked xbegin_unlocked,
      hs.lock.update (by rw [xbegin_critical, hpc]; rfl),
      update_frames hs.frames (xbegin_frameOk _), hs.suspended_frames⟩
  | @test u hpc =>
    refine hs.setPc (by rw [hpc]; split <;> rfl) ?_
    split
    · trivial
    · exact ‹_›
  | @acquire u hpc hfree =>
    exact ⟨hs.store, hs.lock.acquire hfree rfl, update_frames hs.frames trivial,
      hs.suspended_frames⟩
  | @recheckMiss u hpc hmiss => exact hs.setPc (by rw [hpc]; rfl) hmiss
  | @recheckHit u hpc hhit =>
    exact ⟨hs.store, hs.lock.release (by rw [hpc]; rfl) rfl, update_frames hs.frames hhit,
      hs.suspended_frames⟩
  | @insert u q hpc hq =>
    obtain ⟨hu, rfl⟩ := serverProxy_ok hq
    have hmiss : s.xmlrpcCache u = none := by simpa [frameOk, hpc] using hs.frames t
    obtain ⟨hthr, hsus⟩ := hs.insert_unique hpc rfl
    exact ⟨hs.store.insert hmiss hu, hs.lock.release (by rw [hpc]; rfl) rfl,
      (Function.forall_update_iff s.pc fun _ f => frameOk urlparse _ f).2
        ⟨by simp [frameOk], fun t' e => frameOk_insert hmiss (hs.frames t') fun h => e (hthr t' h)⟩,
      fun f hf => frameOk_insert hmiss (hs.suspended_frames f hf) fun e => hsus (e ▸ hf)⟩
  | @insertRaise u e hpc he =>
    obtain ⟨hu, rfl⟩ := serverProxy_error he
    exact ⟨hs.store, hs.lock.release (by rw [hpc]; rfl) rfl,
      update_frames hs.frames fun _ => ⟨rfl, hu⟩, hs.suspended_frames⟩
  | @read u hpc =>
    refine hs.setPc (by rw [hpc]; rfl) fun _ => ?_
    obtain ⟨p, hp⟩ := Option.ne_none_iff_exists'.1 (by simpa [frameOk, hpc] using hs.frames t)
    exact ⟨p, hp, hp⟩

/-- **One step keeps the invariant.** -/
theorem step (hs : XInv urlparse s) {s' : XState} (h : XStep urlparse s s') :
    XInv urlparse s' := by
  obtain ⟨a, h⟩ := h
  cases a with
  | call t c =>
    simp only [xact] at h
    split at h
    · cases h; exact hs.setPc (by rw [‹s.pc t = .idle›]; rfl) trivial
    · cases h
  | step t => exact hs.exec (xstep_exec h)
  | finish t =>
    simp only [xact] at h
    split at h
    · cases h
      refine hs.setPc ?_ trivial
      cases hp : s.pc t <;> simp_all [XPc.ended, XPc.critical]
    · cases h
  | signal =>
    simp only [xact] at h
    split at h
    · cases h
    · cases h
      refine ⟨hs.store, hs.lock.signal, update_frames hs.frames trivial, fun f hf => ?_⟩
      rcases List.mem_cons.1 hf with rfl | hf
      · exact hs.frames 0
      · exact hs.suspended_frames f hf
  | resume =>
    simp only [xact] at h
    split at h
    · rename_i f rest h0 hsus
      cases h
      exact ⟨hs.store, hs.lock.resume h0 hsus,
        update_frames hs.frames (hs.suspended_frames f (hsus ▸ List.mem_cons_self _ _)),
        fun g hg => hs.suspended_frames g (hsus ▸ List.mem_cons_of_mem _ hg)⟩
    · cases h

/-- A step never changes an entry of the cache. -/
theorem cache_stable (hs : XInv urlparse s) {s' : XState} (h : XStep urlparse s s')
    {u : String} {p : Nat} (hp : s.xmlrpcCache u = some p) : s'.xmlrpcCache u = some p := by
  obtain ⟨a, h⟩ := h
  cases a with
  | step t =>
    cases xstep_exec h with
    | @insert v q hpc hq =>
      have e : u ≠ v := by
        rintro rfl
        rw [show s.xmlrpcCache u = none by simpa [frameOk, hpc] using hs.frames t] at hp
        cases hp
      show Function.update s.xmlrpcCache v _ u = _
      rwa [Function.update_noteq e]
    | _ => exact hp
  | call | finish | signal =>
    simp only [xact] at h; split at h <;> cases h; exact hp
  | resume => simp only [xact] at h; split at h <;> cases h; exact hp

/-- A cached call that has ended ended as its place knows. -/
theorem ended_call (hs : XInv urlparse s) {t : Nat} {u : String}
    (hend : (s.pc t).ended = true) (hu : (s.pc t).uriOf = some u)
    (hv : validUri urlparse u = true) :
    if httpUri urlparse u then
      ∃ p, s.pc t = .done ⟨some u, true⟩ (some p) ∧ s.xmlrpcCache u = some p ∧
        s.proxies[p]? = some ⟨u, true⟩
    else s.pc t = .raised ⟨some u, true⟩ .osError ∧ s.xmlrpcCache u = none := by
  have hf := hs.frames t
  have hnone : httpUri urlparse u = false → s.xmlrpcCache u = none := fun hh => by
    cases hc : s.xmlrpcCache u with
    | none => rfl
    | some p => rw [hs.store.cache_http u p hc] at hh; cases hh
  cases hp : s.pc t with
  | done c r =>
    rw [hp] at hf hu
    obtain ⟨_ | v, _ | _⟩ := c <;> simp only [XPc.uriOf, reduceCtorEq, Option.some.injEq] at hu
    subst v
    obtain ⟨p, rfl, hc⟩ := hf hv
    rw [if_pos (hs.store.cache_http u p hc)]
    exact ⟨p, rfl, hc, hs.store.cache_locked u p hc⟩
  | raised c e =>
    rw [hp] at hf hu
    obtain ⟨_ | v, _ | _⟩ := c <;> simp only [XPc.uriOf, reduceCtorEq, Option.some.injEq] at hu
    subst v
    obtain ⟨rfl, hh⟩ := hf hv
    rw [if_neg (by simp [hh])]
    exact ⟨rfl, hnone hh⟩
  | _ => rw [hp] at hend; cases hend

end XInv

theorem xInv_of_reachable {s : XState} (h : XReachable urlparse s) : XInv urlparse s := by
  induction h with
  | init => exact xInv_init urlparse
  | step _ hstep ih => exact ih.step hstep

/-! ### A cached call ends -/

/-- The statements a cached call has left to run, its own. -/
def XPc.left : XPc → Nat
  | .start _ => 6
  | .test _ => 5
  | .acquire _ => 4
  | .recheck _ => 3
  | .insert _ => 2
  | .read _ => 1
  | _ => 0

/-- The statements a place in the critical section runs before it releases the lock. -/
def XPc.toRelease : XPc → Nat
  | .recheck _ => 2
  | .insert _ => 1
  | _ => 0

/-- Before `with _xmlrpc_lock`, so possibly waiting for the lock's holder. -/
def XPc.beforeLock : XPc → Bool
  | .start _ | .test _ | .acquire _ => true
  | _ => false

/-- The statements the holder of `lock` runs before it releases it. -/
def holderLeft (lock : Option Nat) (pc : Nat → XPc) : Nat :=
  match lock with
  | some h => (pc h).toRelease
  | none => 0

/-- The statements thread `t`'s call has left when it and the lock's holder run. -/
def XState.callLeft (s : XState) (t : Nat) : Nat :=
  (s.pc t).left + if (s.pc t).beforeLock then holderLeft s.xmlrpcLock s.pc else 0

theorem XPc.toRelease_le (p : XPc) : p.toRelease ≤ 2 := by
  cases p <;> simp [XPc.toRelease]

theorem holderLeft_le (lock : Option Nat) (pc : Nat → XPc) : holderLeft lock pc ≤ 2 := by
  cases lock with
  | none => simp [holderLeft]
  | some h => exact XPc.toRelease_le _

theorem holderLeft_update {lock : Option Nat} {pc : Nat → XPc} {t : Nat} (h : lock ≠ some t)
    (p : XPc) : holderLeft lock (Function.update pc t p) = holderLeft lock pc := by
  cases lock with
  | none => rfl
  | some h' =>
    have e : h' ≠ t := by rintro rfl; exact h rfl
    simp [holderLeft, Function.update_noteq e]

/-- A place of a cached call with nothing left has ended. -/
theorem XPc.ended_of_left {p : XPc} {u : String} (hu : p.uriOf = some u) (hl : p.left = 0) :
    p.ended = true := by
  cases p <;> simp_all [XPc.uriOf, XPc.left, XPc.ended]

theorem XPc.left_of_ended {p : XPc} (h : p.ended = true) : p.left = 0 ∧ p.beforeLock = false := by
  cases p <;> simp_all [XPc.ended, XPc.left, XPc.beforeLock]

variable (urlparse)

/-- Run thread `t`'s call for up to `n` statements, running the lock's holder while `t` waits
for `_xmlrpc_lock`; stop when the call has ended or neither can go on. -/
def xfinish (s : XState) (t : Nat) : Nat → XState
  | 0 => s
  | n + 1 =>
    if (s.pc t).ended then s
    else
      match xstep urlparse s t with
      | some s' => xfinish s' t n
      | none =>
        match s.xmlrpcLock.bind (xstep urlparse s) with
        | some s' => xfinish s' t n
        | none => s

variable {urlparse}

section Finish

variable {s : XState} {t : Nat} {u : String}

/-- No call of the main thread that a signal handler interrupted is inside
`with _xmlrpc_lock`. -/
def XState.Calm (s : XState) : Prop := ∀ f ∈ s.suspended, f.critical = false

theorem XInv.steps (hs : XInv urlparse s) {s' : XState}
    (h : Relation.ReflTransGen (XStep urlparse) s s') : XInv urlparse s' := by
  induction h with
  | refl => exact hs
  | tail _ hstep ih => exact ih.step hstep

theorem XInv.holder_runs (hs : XInv urlparse s) (hc : s.Calm) {h : Nat}
    (hl : s.xmlrpcLock = some h) : (s.pc h).critical = true := by
  rcases hs.lock.owner_critical h hl with hc' | ⟨-, f, hf, hcf⟩
  · exact hc'
  · simp [hc f hf] at hcf

theorem XInv.lock_ne (hs : XInv urlparse s) (hc : s.Calm) (ht : (s.pc t).critical = false) :
    s.xmlrpcLock ≠ some t := fun hl => by rw [hs.holder_runs hc hl] at ht; cases ht

theorem xstep_of_critical {h : Nat} (hc : (s.pc h).critical = true) :
    ∃ s', xstep urlparse s h = some s' := by
  cases hp : s.pc h with
  | recheck v => simp only [xstep, hp]; split <;> exact ⟨_, rfl⟩
  | insert v => simp only [xstep, hp]; split <;> exact ⟨_, rfl⟩
  | _ => simp [hp, XPc.critical] at hc

/-- A running cached call that cannot take a step waits for the lock. -/
theorem xstep_waits (hu : (s.pc t).uriOf = some u) (hend : (s.pc t).ended = false)
    (hx : xstep urlparse s t = none) : s.pc t = .acquire u ∧ s.xmlrpcLock ≠ none := by
  cases hp : s.pc t with
  | acquire v =>
    rw [hp] at hu; cases hu
    refine ⟨rfl, fun hl => ?_⟩
    simp [xstep, hp, hl] at hx
  | recheck v => simp only [xstep, hp] at hx; split at hx <;> cases hx
  | insert v => simp only [xstep, hp] at hx; split at hx <;> cases hx
  | idle => simp [hp, XPc.uriOf] at hu
  | done _ _ | raised _ _ => simp [hp, XPc.ended] at hend
  | _ => simp [xstep, hp] at hx

/-- A statement of the call lowers what it has left. -/
theorem XExec.callLeft_lt (hs : XInv urlparse s) (hc : s.Calm) {s' : XState}
    (h : XExec urlparse s t s') (hu : (s.pc t).uriOf = some u) :
    s'.callLeft t < s.callLeft t ∧ (s'.pc t).uriOf = some u := by
  cases h with
  | @start c hpc =>
    rw [hpc] at hu
    obtain ⟨_ | v, _ | _⟩ := c <;> simp only [XPc.uriOf, reduceCtorEq, Option.some.injEq] at hu
    subst v
    have hne := hs.lock_ne hc (t := t) (by rw [hpc]; rfl)
    simp only [XState.callLeft, XState.setPc_pc, XState.setPc_xmlrpcLock, Function.update_same,
      hpc, holderLeft_update hne]
    rcases xbegin_cached (n := s.proxies.length) u with he | ⟨he, hu'⟩
    · rw [he]; simp [XPc.left, XPc.beforeLock, XPc.uriOf]
    · obtain ⟨hl, hb⟩ := XPc.left_of_ended he
      refine ⟨?_, hu'⟩
      rw [hl, hb]
      simp only [Bool.false_eq_true, if_false, XPc.left, XPc.beforeLock, if_true]
      omega
  | @test v hpc =>
    rw [hpc] at hu; cases hu
    have hne := hs.lock_ne hc (t := t) (by rw [hpc]; rfl)
    simp only [XState.callLeft, XState.setPc_pc, XState.setPc_xmlrpcLock, Function.update_same,
      hpc, holderLeft_update hne]
    split
    · simp [XPc.left, XPc.beforeLock, XPc.uriOf]
    · simp [XPc.left, XPc.beforeLock, XPc.uriOf]; omega
  | acquire hpc _ | recheckMiss hpc _ | recheckHit hpc _ | insert hpc _ | insertRaise hpc _
  | read hpc =>
    rw [hpc] at hu; cases hu
    simp [XState.callLeft, hpc, XPc.left, XPc.beforeLock, XPc.uriOf] <;> omega

/-- A statement of the lock's holder, while `t` waits before the lock, lowers what `t`'s call
has left. -/
theorem XExec.holder_lt (hs : XInv urlparse s) (hc : s.Calm) {h : Nat} {s' : XState}
    (hx : XExec urlparse s h s') (hl : s.xmlrpcLock = some h) (e : t ≠ h)
    (ht : (s.pc t).beforeLock = true) :
    s'.callLeft t < s.callLeft t ∧ s'.pc t = s.pc t := by
  have hpt := hx.pc_other e
  refine ⟨?_, hpt⟩
  have hcrit := hs.holder_runs hc hl
  simp only [XState.callLeft, hpt, ht, if_true, Nat.add_lt_add_iff_left, holderLeft, hl]
  cases hx with
  | start hpc | test hpc | acquire hpc _ | read hpc => simp [hpc, XPc.critical] at hcrit
  | recheckMiss hpc _ => simp [hl, hpc, XPc.toRelease]
  | recheckHit hpc _ => simp [hpc, XPc.toRelease]
  | insert hpc _ => simp [hpc, XPc.toRelease]
  | insertRaise hpc _ => simp [hpc, XPc.toRelease]

/-- One turn of `xfinish`: a statement of the call, or of the lock's holder while the call
waits for the lock; either lowers what the call has left. -/
theorem xfinish_turn (hs : XInv urlparse s) (hc : s.Calm) (hu : (s.pc t).uriOf = some u)
    (hend : (s.pc t).ended = false) (n : Nat) :
    ∃ s', XStep urlparse s s' ∧ xfinish urlparse s t (n + 1) = xfinish urlparse s' t n ∧
      s'.callLeft t < s.callLeft t ∧ (s'.pc t).uriOf = some u ∧ s'.suspended = s.suspended := by
  cases hx : xstep urlparse s t with
  | some s' =>
    have he := xstep_exec hx
    obtain ⟨hlt, hu'⟩ := he.callLeft_lt hs hc hu
    exact ⟨s', ⟨.step t, hx⟩, by simp [xfinish, hend, hx], hlt, hu', he.suspended⟩
  | none =>
    obtain ⟨hpc, hl⟩ := xstep_waits hu hend hx
    obtain ⟨h, hl⟩ := Option.ne_none_iff_exists'.1 hl
    have hcrit := hs.holder_runs hc hl
    have e : t ≠ h := by rintro rfl; rw [hpc] at hcrit; cases hcrit
    obtain ⟨s', hx'⟩ : ∃ s', xstep urlparse s h = some s' := xstep_of_critical hcrit
    have hex := xstep_exec hx'
    obtain ⟨hlt, hpt⟩ := hex.holder_lt hs hc hl e (by rw [hpc]; rfl)
    exact ⟨s', ⟨.step h, hx'⟩, by simp [xfinish, hend, hx, hl, hx'], hlt, by rw [hpt]; exact hu,
      hex.suspended⟩

/-- **The call ends.**  From any state of the invariant, with fuel for what the call has left,
`xfinish` runs steps of the system until the call has ended. -/
theorem xfinish_ends : ∀ (n : Nat) {s : XState}, XInv urlparse s → s.Calm →
    (s.pc t).uriOf = some u → s.callLeft t ≤ n →
    Relation.ReflTransGen (XStep urlparse) s (xfinish urlparse s t n) ∧
      ((xfinish urlparse s t n).pc t).ended = true ∧
      ((xfinish urlparse s t n).pc t).uriOf = some u
  | 0, s, _, _, hu, hn => by
    have hl : (s.pc t).left = 0 := by unfold XState.callLeft at hn; omega
    exact ⟨.refl, XPc.ended_of_left hu hl, hu⟩
  | n + 1, s, hs, hc, hu, hn => by
    cases hend : (s.pc t).ended
    · obtain ⟨s', hstep, hfin, hlt, hu', hsus⟩ := xfinish_turn hs hc hu hend n
      have ih := xfinish_ends n (hs.step hstep) (fun f hf => hc f (hsus ▸ hf)) hu' (by omega)
      rw [hfin]
      exact ⟨.head hstep ih.1, ih.2⟩
    · rw [xfinish, if_pos hend]
      exact ⟨.refl, hend, hu⟩

end Finish

/-! ### The cache -/

end Urlparse

/-- `urllib.parse.urlsplit(url)[0:2]`, which `urlparse` shares, on text: the leading C0
control characters and spaces stripped and every tab, carriage return and newline removed
first; the scheme before the first `:`, if that is a run of scheme characters starting with an
ASCII letter, lowercased; the network location after `//`, up to the next `/`, `?` or `#`; and
`none` for the `ValueError` of a network location with `[` and no `]`, or `]` and no `[`. -/
def urlsplit (url : String) : Option (String × String) :=
  let cs := (url.data.dropWhile fun c => c.toNat ≤ 0x20).filter fun c => c ∉ ['\t', '\r', '\n']
  let schemeChar (c : Char) : Bool := c.isAlphanum || c = '+' || c = '-' || c = '.'
  let (scheme, rest) : List Char × List Char :=
    match findChar cs ':' with
    | some i =>
      if 0 < i ∧ (cs.head?.map Char.isAlpha = some true) ∧ (cs.take i).all schemeChar then
        ((cs.take i).map Char.toLower, cs.drop (i + 1))
      else ([], cs)
    | none => ([], cs)
  let netloc := if rest.take 2 = ['/', '/'] then
      (rest.drop 2).takeWhile fun c => c ∉ ['/', '?', '#']
    else []
  if ('[' ∈ netloc ∧ ']' ∉ netloc) ∨ (']' ∈ netloc ∧ '[' ∉ netloc) then none
  else some (⟨scheme⟩, ⟨netloc⟩)

/-- Thread 0 takes `_xmlrpc_lock` on the first use of a URI, and thread 1 calls `xmlrpcapi` on
it. -/
def xmlrpcRace : List XAct :=
  let c : XCall := ⟨some "http://master:11311", true⟩
  [.call 0 c, .step 0, .step 0, .step 0, .call 1 c]

/-- Thread 1 passes the test without the lock, waits while thread 0 inserts, finds the entry
under the lock, and returns proxy `0`, the only one constructed. -/
example :
    let s := (xrun urlsplit XState.init xmlrpcRace).getD XState.init
    (xfinish urlsplit s 1 8).pc 1 = .done ⟨some "http://master:11311", true⟩ (some 0) ∧
      (xfinish urlsplit s 1 8).proxies = [⟨"http://master:11311", true⟩] := by
  decide

/-- Thread 0 calls `xmlrpcapi("rosrpc://host:1234")`. -/
def rosrpcCall : List XAct :=
  [.call 0 ⟨some "rosrpc://host:1234", true⟩, .step 0, .step 0, .step 0, .step 0, .step 0]

end RospyCore
