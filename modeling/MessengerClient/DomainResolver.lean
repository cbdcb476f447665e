import MessengerClient.Lib.Runs
import Mathlib

/-!
# MessengerClient.DomainResolver

`DomainResolver` of `mtproto/details/mtproto_domain_resolver.cpp`, which asks one service after the
other for the addresses of a domain.

A list of attempts is taken from by a timer until it is empty, and it is forgotten on the first
usable answer only.  When the last request fails after the last attempt was taken, the empty list
stays, and no later `resolve` gets past it (`resolve_iff`).
-/

namespace MessengerClient

/-- `DnsDomains()`. -/
def dnsDomains : List String := ["google.com", "www.google.com", "google.ru", "www.google.ru"]

def kMinTimeToLive : Int := 10 * 1000

def kMaxTimeToLive : Int := 300 * 1000

/-- What `ParseDnsResponse` reads from an answer. -/
structure DnsEntry where
  data : String
  TTL : Int
deriving DecidableEq, Repr

namespace DomainResolver

inductive AttemptType where
  | Mozilla
  | Google
deriving DecidableEq, Repr

structure Attempt where
  type : AttemptType
  data : String
  host : String := ""
deriving DecidableEq, Repr

structure AttemptKey where
  domain : String
  ipv6 : Bool := false
deriving DecidableEq, Repr

structure CacheEntry where
  ips : List String := []
  expireAt : Int := 0
deriving DecidableEq, Repr

/-- The guard is alive while the list is in the map. -/
structure Attempts where
  list : List Attempt
  guard : Nat
deriving DecidableEq, Repr

end DomainResolver

open DomainResolver

/-- The fields of the resolver, the timers and the requests that run, and what the callback was
told. -/
structure DomainResolver where
  attempts : AttemptKey → Option Attempts := fun _ => none
  requests : AttemptKey → Option (List Nat) := fun _ => none
  cache : AttemptKey → Option CacheEntry := fun _ => none
  lastTimestamp : Int := 0
  /-- Of `base::call_delayed`, each with the guard it was given. -/
  timers : List (AttemptKey × Nat) := []
  /-- What each running reply asks. -/
  replies : List (Nat × AttemptKey × Attempt) := []
  results : List (String × List String × Int) := []
  nextGuard : Nat := 0
  nextReply : Nat := 0

namespace DomainResolver

/-- What is random in `resolve`, and its time. -/
structure Draw where
  domains : List String
  perm : domains.Perm dnsDomains
  swapped : Bool
  now : Int

/-- The attempts in their order, which are taken from the end of the reversed list. -/
def Draw.attempts (draw : Draw) : List Attempt :=
  let named := draw.domains.reverse.map fun domain =>
    { type := .Google, data := domain, host := "dns" }
  let front := { type := .Google, data := "dns.google.com" } :: named.take 1
  (if draw.swapped then front.reverse else front) ++
    { type := .Mozilla, data := "mozilla.cloudflare-dns.com" } :: named.drop 1

variable (s : DomainResolver)

def valid (key : AttemptKey) : Bool :=
  (s.cache key).any fun entry => s.lastTimestamp < entry.expireAt

def checkExpireAndPushResult (domain : String) : DomainResolver :=
  match s.cache ⟨domain, false⟩ with
  | none => s
  | some ipv4 =>
    if ipv4.expireAt ≤ s.lastTimestamp then s
    else
      let result :=
        match s.cache ⟨domain, true⟩ with
        | none => ipv4
        | some ipv6 =>
          if ipv6.expireAt > s.lastTimestamp then
            { ips := ipv4.ips ++ ipv6.ips, expireAt := min ipv4.expireAt ipv6.expireAt }
          else ipv4
      { s with results := s.results ++ [(domain, result.ips, result.expireAt)] }

def performRequest (key : AttemptKey) (attempt : Attempt) : DomainResolver :=
  { s with
    requests := Function.update s.requests key
      (some ((s.requests key).getD [] ++ [s.nextReply]))
    replies := s.replies ++ [(s.nextReply, key, attempt)]
    nextReply := s.nextReply + 1 }

/-- `none` if the list is empty, from which nothing can be taken. -/
def sendNextRequest (key : AttemptKey) : Option DomainResolver :=
  match s.attempts key with
  | none => some s
  | some attempts =>
    match attempts.list.getLast? with
    | none => none
    | some attempt =>
      let list := attempts.list.dropLast
      some ({ s with
        attempts := Function.update s.attempts key (some { attempts with list })
        timers := if list.isEmpty then s.timers else s.timers ++ [(key, attempts.guard)]
      }.performRequest key attempt)

def resolveKey (key : AttemptKey) (draw : Draw) : Option DomainResolver :=
  if (s.attempts key).isSome then some s
  else if (s.requests key).isSome then some s
  else
    let s := { s with lastTimestamp := draw.now }
    if s.valid key then some (s.checkExpireAndPushResult key.domain)
    else
      { s with
        attempts := Function.update s.attempts key
          (some { list := draw.attempts.reverse, guard := s.nextGuard })
        nextGuard := s.nextGuard + 1
      }.sendNextRequest key

def resolve (domain : String) (ipv4 ipv6 : Draw) : Option DomainResolver := do
  let s ← s.resolveKey ⟨domain, false⟩ ipv4
  s.resolveKey ⟨domain, true⟩ ipv6

def finalizeRequest (key : AttemptKey) (reply : Nat) : DomainResolver :=
  match s.requests key with
  | none => s
  | some requests =>
    let requests := requests.filter (· ≠ reply)
    { s with
      requests := Function.update s.requests key
        (if requests.isEmpty then none else some requests) }

def timeToLive (response : List DnsEntry) : Int :=
  response.foldl (fun ttl item => min ttl (max (item.TTL * 1000) kMinTimeToLive)) kMaxTimeToLive

def requestFinished (key : AttemptKey) (reply : Nat) (response : List DnsEntry) (now : Int) :
    DomainResolver :=
  let s := s.finalizeRequest key reply
  if response.isEmpty then s
  else
    { s with
      requests := Function.update s.requests key none
      attempts := Function.update s.attempts key none
      lastTimestamp := now
      cache := Function.update s.cache key
        (some { ips := response.map DnsEntry.data, expireAt := now + timeToLive response })
    }.checkExpireAndPushResult key.domain

/-! ## Runs -/

inductive Event where
  | resolve (domain : String) (ipv4 ipv6 : Draw)
  | timer (key : AttemptKey) (guard : Nat)
  | finished (key : AttemptKey) (reply : Nat) (response : List DnsEntry) (now : Int)

/-- A timer runs before it fires, and a request before it is finished; those that the resolver has
forgotten too. -/
def Enabled : Event → Prop
  | .resolve _ _ _ => True
  | .timer key guard => (key, guard) ∈ s.timers
  | .finished key reply _ _ => (reply, key) ∈ s.replies.map fun r => (r.1, r.2.1)

instance : (event : Event) → Decidable (s.Enabled event)
  | .resolve _ _ _ => inferInstanceAs (Decidable True)
  | .timer _ _ => inferInstanceAs (Decidable (_ ∈ s.timers))
  | .finished _ _ _ _ => inferInstanceAs (Decidable (_ ∈ s.replies.map _))

/-- A timer does nothing if its guard is not alive. -/
def act : Event → Option DomainResolver
  | .resolve domain ipv4 ipv6 => s.resolve domain ipv4 ipv6
  | .timer key guard =>
    let s := { s with timers := s.timers.erase (key, guard) }
    if (s.attempts key).any (·.guard = guard) then s.sendNextRequest key else some s
  | .finished key reply response now =>
    some ({ s with replies := s.replies.filter fun r => r.1 ≠ reply || r.2.1 ≠ key
      }.requestFinished key reply response now)

def system : System DomainResolver Event where
  init s := s = {}
  step s event s' := s.Enabled event ∧ s.act event = some s'

/-! ## What is to be of a resolver -/

/-- No request runs for a key, and no attempt is left. -/
def Failed (key : AttemptKey) : Prop :=
  s.requests key = none ∧ ∀ attempts, s.attempts key = some attempts → attempts.list = []

/-- Resolving can be retried: attempts wait for a timer or a request, a timer never finds an empty
list, and a key whose attempts have all failed is asked for again. -/
structure Retryable (s : DomainResolver) : Prop where
  waiting : ∀ key attempts, s.attempts key = some attempts →
    attempts.list ≠ [] ∧ (key, attempts.guard) ∈ s.timers ∨ s.requests key ≠ none
  taken : ∀ event, s.Enabled event → s.act event ≠ none
  resent : ∀ key draw, s.Failed key → ¬{ s with lastTimestamp := draw.now }.valid key →
    ∃ s', s.resolveKey key draw = some s' ∧ s'.requests key ≠ none

/-- An answer is usable, or it is not the last one for a key of which no attempt is left. -/
def NotLast (s : DomainResolver) : Event → Prop
  | .finished key reply response _ => response = [] →
    ∀ attempts, s.attempts key = some attempts → attempts.list = [] →
      ∃ requests, s.requests key = some requests ∧ ∃ other ∈ requests, other ≠ reply
  | _ => True

/-! ## Timers -/

/-- A list is not empty just when a timer for it runs, but for some keys. -/
structure RunningBut (s : DomainResolver) (But : AttemptKey → Prop) : Prop where
  nodup : s.timers.Nodup
  timer_lt : ∀ timer ∈ s.timers, timer.2 < s.nextGuard
  guard_lt : ∀ key attempts, s.attempts key = some attempts → attempts.guard < s.nextGuard
  timer_iff : ∀ key, ¬But key → ∀ attempts, s.attempts key = some attempts →
    (attempts.list ≠ [] ↔ (key, attempts.guard) ∈ s.timers)
  requests_ne : ∀ key requests, s.requests key = some requests → requests ≠ []

/-- What holds in every state. -/
def Running (s : DomainResolver) : Prop := s.RunningBut fun _ => False

/-- Attempts are left, or a request runs. -/
def Waiting (s : DomainResolver) : Prop :=
  ∀ key attempts, s.attempts key = some attempts → attempts.list ≠ [] ∨ s.requests key ≠ none

variable {s s' : DomainResolver} {key : AttemptKey} {attempts : Attempts}

/-- The two agree on what runs. -/
structure SameRuns (s s' : DomainResolver) : Prop where
  attempts : s'.attempts = s.attempts
  requests : s'.requests = s.requests
  timers : s'.timers = s.timers
  nextGuard : s'.nextGuard = s.nextGuard

theorem SameRuns.running (hsame : SameRuns s s') (h : s.Running) : s'.Running := by
  obtain ⟨hattempts, hrequests, htimers, hguard⟩ := hsame
  constructor <;> simp only [hattempts, hrequests, htimers, hguard]
  · exact h.nodup
  · exact h.timer_lt
  · exact h.guard_lt
  · exact h.timer_iff
  · exact h.requests_ne

theorem SameRuns.waiting (hsame : SameRuns s s') (h : s.Waiting) : s'.Waiting := by
  rw [Waiting, hsame.attempts, hsame.requests]
  exact h

theorem sameRuns_checkExpireAndPushResult (s : DomainResolver) (domain : String) :
    SameRuns s (s.checkExpireAndPushResult domain) := by
  rw [checkExpireAndPushResult]
  split
  · exact ⟨rfl, rfl, rfl, rfl⟩
  · split <;> exact ⟨rfl, rfl, rfl, rfl⟩

/-- **An attempt is taken** if one is left: its request runs then, and a timer if others are
left. -/
theorem RunningBut.sendNextRequest (h : s.RunningBut (· = key))
    (hattempts : s.attempts key = some attempts) (hne : attempts.list ≠ [])
    (htimer : (key, attempts.guard) ∉ s.timers) :
    ∃ s', s.sendNextRequest key = some s' ∧ s'.Running ∧ s'.requests key ≠ none ∧
      ∀ key', key' ≠ key →
        s'.attempts key' = s.attempts key' ∧ s'.requests key' = s.requests key' := by
  have hlast : attempts.list.getLast? = some (attempts.list.getLast hne) :=
    List.getLast?_eq_some_getLast hne
  rw [DomainResolver.sendNextRequest, hattempts]
  simp only [hlast]
  refine ⟨_, rfl, ?_, by simp [performRequest], fun key' hkey => by simp [performRequest, hkey]⟩
  constructor <;> simp only [performRequest]
  · split
    · exact h.nodup
    · exact List.nodup_append.mpr ⟨h.nodup, List.nodup_singleton _, by
        rintro timer hmem timer' hmem' rfl
        exact htimer (List.mem_singleton.mp hmem' ▸ hmem)⟩
  · split
    · exact h.timer_lt
    · rw [List.forall_mem_append, List.forall_mem_singleton]
      exact ⟨h.timer_lt, h.guard_lt key attempts hattempts⟩
  · intro key' attempts' hsome
    by_cases hkey : key' = key
    · subst hkey
      rw [Function.update_self] at hsome
      obtain rfl := Option.some_inj.mp hsome
      exact h.guard_lt key' attempts hattempts
    · rw [Function.update_of_ne hkey] at hsome
      exact h.guard_lt key' attempts' hsome
  · intro key' _ attempts' hsome
    by_cases hkey : key' = key
    · subst hkey
      rw [Function.update_self] at hsome
      obtain rfl := Option.some_inj.mp hsome
      split
      · next hnil => simp [List.isEmpty_iff.mp hnil, htimer]
      · next hnil => simpa using hnil
    · rw [Function.update_of_ne hkey] at hsome
      rw [h.timer_iff key' hkey attempts' hsome]
      split
      · rfl
      · simp [hkey]
  · intro key' requests hsome
    by_cases hkey : key' = key
    · subst hkey
      rw [Function.update_self] at hsome
      obtain rfl := Option.some_inj.mp hsome
      simp
    · rw [Function.update_of_ne hkey] at hsome
      exact h.requests_ne key' requests hsome

/-- A list of attempts is never empty at first. -/
theorem Draw.attempts_ne_nil (draw : Draw) : draw.attempts.reverse ≠ [] := by
  simp [Draw.attempts]

/-- **Resolving** keeps what holds, and asks for a key that has failed if it was forgotten. -/
theorem Running.resolveKey (h : s.Running) (key : AttemptKey) (draw : Draw) :
    ∃ s', s.resolveKey key draw = some s' ∧ s'.Running ∧ (s.Waiting → s'.Waiting) ∧
      (s.attempts key = none → s.requests key = none →
        ¬{ s with lastTimestamp := draw.now }.valid key → s'.requests key ≠ none) := by
  rw [DomainResolver.resolveKey]
  cases hattempts : s.attempts key with
  | some attempts => exact ⟨s, by simp, h, id, by simp⟩
  | none =>
    cases hrequests : s.requests key with
    | some requests => exact ⟨s, by simp, h, id, by simp⟩
    | none =>
      simp only [Option.isSome_none, Bool.false_eq_true, if_false]
      by_cases hvalid : { s with lastTimestamp := draw.now }.valid key
      · have hsame : SameRuns s
            ({ s with lastTimestamp := draw.now }.checkExpireAndPushResult key.domain) := by
          obtain ⟨hattempts, hrequests, htimers, hguard⟩ :=
            sameRuns_checkExpireAndPushResult { s with lastTimestamp := draw.now } key.domain
          exact ⟨hattempts, hrequests, htimers, hguard⟩
        exact ⟨_, if_pos hvalid, hsame.running h, hsame.waiting,
          fun _ _ hnot => absurd hvalid hnot⟩
      · rw [if_neg hvalid]
        have hbut : RunningBut { s with
            lastTimestamp := draw.now
            attempts := Function.update s.attempts key
              (some { list := draw.attempts.reverse, guard := s.nextGuard })
            nextGuard := s.nextGuard + 1 } (· = key) := by
          refine ⟨h.nodup, fun timer htimer => (h.timer_lt timer htimer).trans (Nat.lt_succ_self _),
            fun key' attempts' hsome => ?_, fun key' hkey attempts' hsome => ?_, h.requests_ne⟩
          · by_cases hkey : key' = key
            · subst hkey
              simp only [Function.update_self, Option.some_inj] at hsome
              rw [← hsome]
              exact Nat.lt_succ_self _
            · simp only [Function.update_of_ne hkey] at hsome
              exact (h.guard_lt key' attempts' hsome).trans (Nat.lt_succ_self _)
          · simp only [Function.update_of_ne hkey] at hsome
            exact h.timer_iff key' id attempts' hsome
        obtain ⟨s', hsend, hrunning, hrequest, hothers⟩ := hbut.sendNextRequest
          (Function.update_self _ _ _) draw.attempts_ne_nil
            fun htimer => (h.timer_lt _ htimer).false
        refine ⟨s', hsend, hrunning, fun hwaiting key' attempts' hsome => ?_,
          fun _ _ _ => hrequest⟩
        by_cases hkey : key' = key
        · exact .inr (hkey ▸ hrequest)
        · obtain ⟨hattempts', hrequests'⟩ := hothers key' hkey
          simp only [Function.update_of_ne hkey] at hattempts'
          rw [hattempts'] at hsome
          rw [hrequests']
          exact hwaiting key' attempts' hsome

/-- **A timer** finds an attempt, if its guard is alive. -/
theorem Running.timer (h : s.Running) {guard : Nat} (htimer : (key, guard) ∈ s.timers) :
    ∃ s', s.act (.timer key guard) = some s' ∧ s'.Running ∧ (s.Waiting → s'.Waiting) := by
  have hnot : (key, guard) ∉ s.timers.erase (key, guard) := h.nodup.not_mem_erase
  by_cases halive : ∃ attempts, s.attempts key = some attempts ∧ attempts.guard = guard
  · obtain ⟨attempts, hattempts, rfl⟩ := halive
    have hne := (h.timer_iff key id attempts hattempts).mpr htimer
    have hbut : RunningBut { s with timers := s.timers.erase (key, attempts.guard) } (· = key) := by
      refine ⟨h.nodup.erase _, fun timer hmem => h.timer_lt timer (List.mem_of_mem_erase hmem),
        h.guard_lt, fun key' hkey attempts' hsome => ?_, h.requests_ne⟩
      have hother : (key', attempts'.guard) ≠ (key, attempts.guard) :=
        fun heq => hkey (Prod.ext_iff.mp heq).1
      rw [h.timer_iff key' id attempts' hsome]
      exact (List.mem_erase_of_ne hother).symm
    obtain ⟨s', hsend, hrunning, hrequest, hothers⟩ := hbut.sendNextRequest hattempts hne hnot
    refine ⟨s', ?_, hrunning, fun hwaiting key' attempts' hsome => ?_⟩
    · simpa [act, hattempts] using hsend
    · by_cases hkey : key' = key
      · exact .inr (hkey ▸ hrequest)
      · obtain ⟨hattempts', hrequests'⟩ := hothers key' hkey
        rw [hattempts'] at hsome
        rw [hrequests']
        exact hwaiting key' attempts' hsome
  · refine ⟨{ s with timers := s.timers.erase (key, guard) }, ?_, ?_, id⟩
    · have hdead : ¬(s.attempts key).any (·.guard = guard) := by
        rw [Option.any_eq_true]
        rintro ⟨attempts, hattempts, hguard⟩
        exact halive ⟨attempts, hattempts, of_decide_eq_true hguard⟩
      simp only [act]
      exact if_neg hdead
    · refine ⟨h.nodup.erase _, fun timer hmem => h.timer_lt timer (List.mem_of_mem_erase hmem),
        h.guard_lt, fun key' _ attempts' hsome => ?_, h.requests_ne⟩
      have hother : (key', attempts'.guard) ≠ (key, guard) := by
        intro heq
        obtain ⟨rfl, hguard⟩ := Prod.ext_iff.mp heq
        exact halive ⟨attempts', hsome, hguard⟩
      rw [h.timer_iff key' id attempts' hsome]
      exact (List.mem_erase_of_ne hother).symm

/-! ## Finished requests -/

/-- A request runs still if another one ran. -/
theorem requests_finalizeRequest (s : DomainResolver) (key : AttemptKey) (reply : Nat) :
    (s.finalizeRequest key reply).requests key ≠ none ↔
      ∃ requests, s.requests key = some requests ∧ ∃ other ∈ requests, other ≠ reply := by
  rw [finalizeRequest]
  cases hrequests : s.requests key with
  | none => simp [hrequests]
  | some requests => simp [List.filter_eq_nil_iff]

theorem requests_finalizeRequest_of_ne {key' : AttemptKey} (hkey : key' ≠ key) (reply : Nat) :
    (s.finalizeRequest key reply).requests key' = s.requests key' := by
  rw [finalizeRequest]
  cases s.requests key with
  | none => rfl
  | some requests => exact Function.update_of_ne hkey _ _

theorem Running.finalizeRequest (h : s.Running) (key : AttemptKey) (reply : Nat) :
    (s.finalizeRequest key reply).Running ∧
      (s.finalizeRequest key reply).attempts = s.attempts := by
  rw [DomainResolver.finalizeRequest]
  cases hrequests : s.requests key with
  | none => exact ⟨h, rfl⟩
  | some requests =>
    refine ⟨⟨h.nodup, h.timer_lt, h.guard_lt, h.timer_iff, fun key' requests' hsome => ?_⟩, rfl⟩
    by_cases hkey : key' = key
    · subst hkey
      simp only [Function.update_self] at hsome
      split at hsome
      · cases hsome
      · next hne =>
        obtain rfl := Option.some_inj.mp hsome
        simpa using hne
    · simp only [Function.update_of_ne hkey] at hsome
      exact h.requests_ne key' requests' hsome

/-- **A request that is finished** keeps what holds, and attempts wait if and only if it was not the
last one. -/
theorem Running.finished (h : s.Running) (hwaiting : s.Waiting) (key : AttemptKey) (reply : Nat)
    (response : List DnsEntry) (now : Int) :
    ∃ s', s.act (.finished key reply response now) = some s' ∧ s'.Running ∧
      (s'.Waiting ↔ s.NotLast (.finished key reply response now)) := by
  have hforget : SameRuns s { s with
      replies := s.replies.filter fun r => r.1 ≠ reply || r.2.1 ≠ key } := ⟨rfl, rfl, rfl, rfl⟩
  refine ⟨_, rfl, ?_⟩
  generalize hs : ({ s with
    replies := s.replies.filter fun r => r.1 ≠ reply || r.2.1 ≠ key } : DomainResolver) = t
  rw [hs] at hforget
  have ht := hforget.running h
  have htwaiting := hforget.waiting hwaiting
  have hnotlast : s.NotLast (.finished key reply response now) ↔
      t.NotLast (.finished key reply response now) := by
    rw [NotLast, NotLast, hforget.attempts, hforget.requests]
  rw [hnotlast, requestFinished]
  obtain ⟨hfinal, hattempts⟩ := ht.finalizeRequest key reply
  cases response with
  | nil =>
    refine ⟨hfinal, ?_⟩
    have hkey := t.requests_finalizeRequest key reply
    constructor
    · intro hwait _ attempts hsome hnil
      refine hkey.mp ((hwait key attempts ?_).resolve_left fun hne => hne hnil)
      exact hattempts ▸ hsome
    · intro hnot key' attempts hsome
      have hsome' : t.attempts key' = some attempts := hattempts ▸ hsome
      by_cases heq : key' = key
      · subst heq
        by_cases hnil : attempts.list = []
        · exact .inr (hkey.mpr (hnot rfl attempts hsome' hnil))
        · exact .inl hnil
      · refine (htwaiting key' attempts hsome').imp_right fun hrequest => ?_
        exact (requests_finalizeRequest_of_ne heq reply).symm ▸ hrequest
  | cons item response =>
    have hsame := sameRuns_checkExpireAndPushResult
      { t.finalizeRequest key reply with
        requests := Function.update (t.finalizeRequest key reply).requests key none
        attempts := Function.update (t.finalizeRequest key reply).attempts key none
        lastTimestamp := now
        cache := Function.update (t.finalizeRequest key reply).cache key
          (some { ips := (item :: response).map DnsEntry.data,
                  expireAt := now + timeToLive (item :: response) }) } key.domain
    refine ⟨hsame.running ?_, iff_of_true (hsame.waiting ?_) ?_⟩
    · refine ⟨hfinal.nodup, hfinal.timer_lt, fun key' attempts hsome => ?_,
        fun key' _ attempts hsome => ?_, fun key' requests hsome => ?_⟩
      · by_cases hkey : key' = key
        · simp [hkey] at hsome
        · simp only [Function.update_of_ne hkey] at hsome
          exact hfinal.guard_lt key' attempts hsome
      · by_cases hkey : key' = key
        · simp [hkey] at hsome
        · simp only [Function.update_of_ne hkey] at hsome
          exact hfinal.timer_iff key' id attempts hsome
      · by_cases hkey : key' = key
        · simp [hkey] at hsome
        · simp only [Function.update_of_ne hkey] at hsome
          exact hfinal.requests_ne key' requests hsome
    · intro key' attempts hsome
      by_cases hkey : key' = key
      · simp [hkey] at hsome
      · simp only [Function.update_of_ne hkey] at hsome ⊢
        rw [requests_finalizeRequest_of_ne hkey]
        exact htwaiting key' attempts (hattempts ▸ hsome)
    · intro hnil
      cases hnil

/-! ## Runs -/

theorem Running.resolve (h : s.Running) (domain : String) (ipv4 ipv6 : Draw) :
    ∃ s', s.act (.resolve domain ipv4 ipv6) = some s' ∧ s'.Running ∧ (s.Waiting → s'.Waiting) := by
  obtain ⟨s₁, hfirst, hrunning₁, hwaiting₁, -⟩ := h.resolveKey ⟨domain, false⟩ ipv4
  obtain ⟨s₂, hsecond, hrunning₂, hwaiting₂, -⟩ := hrunning₁.resolveKey ⟨domain, true⟩ ipv6
  refine ⟨s₂, ?_, hrunning₂, hwaiting₂ ∘ hwaiting₁⟩
  rw [act, DomainResolver.resolve, hfirst]
  exact hsecond

/-- **One event** keeps what holds, and attempts wait if and only if no last request failed. -/
theorem Running.act (h : s.Running) (hwaiting : s.Waiting) {event : Event}
    (henabled : s.Enabled event) :
    ∃ s', s.act event = some s' ∧ s'.Running ∧ (s'.Waiting ↔ s.NotLast event) := by
  cases event with
  | resolve domain ipv4 ipv6 =>
    obtain ⟨s', hact, hrunning, hkeeps⟩ := h.resolve domain ipv4 ipv6
    exact ⟨s', hact, hrunning, iff_of_true (hkeeps hwaiting) trivial⟩
  | timer key guard =>
    obtain ⟨s', hact, hrunning, hkeeps⟩ := h.timer henabled
    exact ⟨s', hact, hrunning, iff_of_true (hkeeps hwaiting) trivial⟩
  | finished key reply response now => exact h.finished hwaiting key reply response now

/-- **Resolving can be retried** where attempts wait. -/
theorem Running.retryable_iff (h : s.Running) : s.Retryable ↔ s.Waiting := by
  constructor
  · intro hretry key attempts hattempts
    exact (hretry.waiting key attempts hattempts).imp_left And.left
  · intro hwaiting
    refine ⟨fun key attempts hattempts => ?_, fun event henabled => ?_,
      fun key draw hfailed hinvalid => ?_⟩
    · refine (hwaiting key attempts hattempts).imp_left fun hne => ⟨hne, ?_⟩
      exact (h.timer_iff key id attempts hattempts).mp hne
    · obtain ⟨s', hact, -⟩ := h.act hwaiting henabled
      rw [hact]
      exact Option.some_ne_none s'
    · obtain ⟨hrequests, hlists⟩ := hfailed
      have hattempts : s.attempts key = none := by
        cases hattempts : s.attempts key with
        | none => rfl
        | some attempts =>
          obtain hne | hrequest := hwaiting key attempts hattempts
          · exact absurd (hlists attempts hattempts) hne
          · exact absurd hrequests hrequest
      obtain ⟨s', hresolve, -, -, hsent⟩ := h.resolveKey key draw
      exact ⟨s', hresolve, hsent hattempts hrequests hinvalid⟩

theorem running_init : Running {} := by
  constructor <;> simp

theorem running_of_reached (h : system.Reached NotLast s) : s.Running ∧ s.Waiting := by
  refine @System.Reached.invariant _ _ _ _ (fun s : DomainResolver => s.Running ∧ s.Waiting) _ h
    ?_ ?_
  · rintro s rfl
    exact ⟨running_init, by simp [Waiting]⟩
  · rintro s event s' ⟨hrunning, hwaiting⟩ hnotlast ⟨henabled, hact⟩
    obtain ⟨s'', hact', hrunning', hiff⟩ := hrunning.act hwaiting henabled
    obtain rfl := Option.some_inj.mp (hact'.symm.trans hact)
    exact ⟨hrunning', hiff.mpr hnotlast⟩

/-- **Resolving can be retried** in every run in which no request fails as the last one of a key of
which no attempt is left, and after the next event if and only if it is no such request. -/
theorem resolve_iff (h : system.Reached NotLast s) :
    s.Retryable ∧ ∀ event s', system.step s event s' → (s'.Retryable ↔ s.NotLast event) := by
  obtain ⟨hrunning, hwaiting⟩ := running_of_reached h
  refine ⟨hrunning.retryable_iff.mpr hwaiting, ?_⟩
  rintro event s' ⟨henabled, hact⟩
  obtain ⟨s'', hact', hrunning', hiff⟩ := hrunning.act hwaiting henabled
  obtain rfl := Option.some_inj.mp (hact'.symm.trans hact)
  rw [hrunning'.retryable_iff, hiff]

/-- A draw that leaves everything in its place. -/
def sameDraw : Draw := ⟨dnsDomains, .refl _, false, 0⟩

theorem resolve_iff_resolved : Retryable ((resolve {} "a.org" sameDraw sameDraw).getD {}) := by
  have hstep : system.step {} (.resolve "a.org" sameDraw sameDraw)
      ((resolve {} "a.org" sameDraw sameDraw).getD {}) := ⟨trivial, rfl⟩
  have hinit : system.Reached NotLast {} := .init rfl
  exact (resolve_iff (hinit.step (a := .resolve "a.org" sameDraw sameDraw) trivial hstep)).1

/-- An event that can be. -/
def next (s : DomainResolver) (event : Event) : Option DomainResolver :=
  if s.Enabled event then s.act event else none

/-- Each of the six attempts fails after the last one was taken. -/
def failingEvents : List Event :=
  .resolve "a.org" sameDraw sameDraw :: List.replicate 5 (.timer ⟨"a.org", false⟩ 0) ++
    [0, 2, 3, 4, 5, 6].map fun reply => .finished ⟨"a.org", false⟩ reply [] 0

/-- The attempts of a domain fail, and it is not asked for again. -/
theorem not_resolve : ¬∀ s, system.Reachable s → s.Retryable := by
  intro h
  have hrun : (failingEvents.foldlM next {}).map (fun s : DomainResolver =>
      ((s.attempts ⟨"a.org", false⟩).map Attempts.list, s.requests ⟨"a.org", false⟩)) =
        some (some [], none) := by decide +kernel
  obtain ⟨s, hrun, hs⟩ := Option.map_eq_some_iff.mp hrun
  have hreachable : system.Reachable s := by
    refine System.Reachable.foldlM (.init rfl) (fun s event s' hnext => ?_) hrun
    rw [next] at hnext
    split at hnext
    · next henabled => exact ⟨henabled, hnext⟩
    · cases hnext
  obtain ⟨hattempts, hrequests⟩ := Prod.ext_iff.mp hs
  obtain ⟨attempts, hsome, hnil⟩ := Option.map_eq_some_iff.mp hattempts
  obtain ⟨hne, -⟩ | hne := (h s hreachable).waiting _ attempts hsome
  · exact hne hnil
  · exact hne hrequests

end DomainResolver

end MessengerClient
