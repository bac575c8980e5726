import PressLabz.FixedWindow
import PressLabz.Valkey
import PressLabz.Words
import Mathlib.Data.List.Basic

/-! # Quotas in Valkey

`valkey-store.ts`: what `@fastify/rate-limit` is given as its store.  Every instance of the API
counts in the same Valkey, one key for each client and route, and the key's own expiry is the
window.  Windows are whole milliseconds, and the numbers are those of Lean: the 64 bits of a
counter are out of reach.
-/
namespace PressLabz
open Valkey

/-! ## The scripts -/

/-- `INCR_LUA`, which moves the counter and reports it. -/
def incrLua (key : String) (timeWindow : Int) : Script String Int (Int × Int) := do
  let current ← strIncr key
  if current = 1 then
    pexpire key timeWindow
    pure (current, timeWindow)
  else
    let timeWindow ← pttl key
    pure (current, timeWindow)

/-- `READ_LUA`, the same reading without moving the counter. -/
def readLua (key : String) : Script String Int (Int × Int) := do
  match ← strGet key with
  | none => pure (0, 0)
  | some current =>
    let ttl ← pttl key
    pure (current, if ttl < 0 then 0 else ttl)

/-! ## The store -/

structure RateLimitReading where
  current : Int
  ttl : Int
  deriving DecidableEq

/-- `RateLimitStoreUnavailableError`. -/
structure RateLimitStoreUnavailable where
  cause : Failure
  statusCode : Nat := 503
  message : String := "Rate limit store unavailable"
  deriving DecidableEq

structure StoreHealth where
  healthy : Bool := true
  suppressed : Nat := 0
  deriving DecidableEq

/-- What `StoreHealth` logs, as `warn`. -/
inductive StoreWarning where
  | unavailable (err : Failure)
  | recovered (suppressed : Nat)
  deriving DecidableEq

def StoreWarning.text : StoreWarning → String
  | .unavailable _ => "rate limit store unavailable; global limits are not enforced"
  | .recovered _ => "rate limit store recovered"

namespace StoreHealth

def recordFailure (health : StoreHealth) (error : Failure) : StoreHealth × Option StoreWarning :=
  if health.healthy then (⟨false, 0⟩, some (.unavailable error))
  else ({ health with suppressed := health.suppressed + 1 }, none)

def recordSuccess (health : StoreHealth) : StoreHealth × Option StoreWarning :=
  if health.healthy then (health, none) else (⟨true, 0⟩, some (.recovered health.suppressed))

end StoreHealth

/-- What a call of the store comes to. -/
structure StoreReply where
  result : Except RateLimitStoreUnavailable RateLimitReading
  valkey : Server String Int
  health : StoreHealth
  warning : Option StoreWarning

/-- The callback that `incr` and `read` hand the client. -/
def scriptCallback (health : StoreHealth) : Except Failure (Int × Int) × Server String Int → StoreReply
  | (.error error, valkey) =>
    let (health, warning) := health.recordFailure error
    { result := .error { cause := error }, valkey, health, warning }
  | (.ok result, valkey) =>
    let (health, warning) := health.recordSuccess
    { result := .ok ⟨result.1, result.2⟩, valkey, health, warning }

structure RouteInfo where
  method : String
  url : String

/-- `string | string[]`. -/
inductive Methods where
  | one (method : String)
  | many (methods : List String)

/-- `String(method)`. -/
def Methods.text : Methods → String
  | .one method => method
  | .many methods => ",".intercalate methods

/-- What `child` reads of the route's options. -/
structure RouteOptions where
  path : Option String := none
  method : Option Methods := none
  routeInfo : Option RouteInfo := none

def RouteOptions.methodText (options : RouteOptions) : String :=
  match options.routeInfo with
  | some info => info.method
  | none => (options.method.map Methods.text).getD ""

def RouteOptions.urlText (options : RouteOptions) : String :=
  match options.routeInfo with
  | some info => info.url
  | none => options.path.getD ""

structure ValkeyRateLimitStore where
  prefix_ : String
  deriving DecidableEq

/-- `new Store()` of the class that `createValkeyStore` binds to a namespace. -/
def createValkeyStore («namespace» : String) : ValkeyRateLimitStore := ⟨«namespace»⟩

namespace ValkeyRateLimitStore

/-- The Valkey key that counts for `key`. -/
def counter (store : ValkeyRateLimitStore) (key : String) : String := store.prefix_ ++ key

def incr (store : ValkeyRateLimitStore) (health : StoreHealth) (valkey : Server String Int)
    (key : String) (timeWindow : Int) : StoreReply :=
  scriptCallback health ((incrLua (store.counter key) timeWindow).eval valkey)

def read (store : ValkeyRateLimitStore) (health : StoreHealth) (valkey : Server String Int)
    (key : String) : StoreReply :=
  scriptCallback health ((readLua (store.counter key)).eval valkey)

def child (store : ValkeyRateLimitStore) (options : RouteOptions) : ValkeyRateLimitStore :=
  ⟨store.prefix_ ++ options.methodText ++ options.urlText ++ "-"⟩

end ValkeyRateLimitStore

/-! ## Any number of instances -/

inductive RateLimitEvent where
  | tick (ms : Nat)
  | incr (process : Nat) (store : ValkeyRateLimitStore) (key : String) (timeWindow : Int)
  | read (process : Nat) (store : ValkeyRateLimitStore) (key : String)

/-- The Valkey they share, and the health that each of them keeps. -/
structure RateLimiter where
  valkey : Server String Int
  health : Nat → StoreHealth

namespace RateLimiter

def settle (s : RateLimiter) (process : Nat) (reply : StoreReply) : RateLimiter :=
  ⟨reply.valkey, Function.update s.health process reply.health⟩

def step (s : RateLimiter) : RateLimitEvent → RateLimiter
  | .tick ms => { s with valkey := { s.valkey with clock := s.valkey.clock + ms } }
  | .incr process store key timeWindow =>
    s.settle process (store.incr (s.health process) s.valkey key timeWindow)
  | .read process store key => s.settle process (store.read (s.health process) s.valkey key)

def run (s : RateLimiter) (events : List RateLimitEvent) : RateLimiter := events.foldl step s

end RateLimiter

namespace RateLimitEvent

/-- An `incr` asks for a window that takes some time. -/
def Positive : RateLimitEvent → Prop
  | .incr _ _ _ timeWindow => 0 < timeWindow
  | _ => True

def passed : RateLimitEvent → Nat
  | .tick ms => ms
  | _ => 0

/-- The call on the Valkey key `k`, when the event is one. -/
def callOn (k : String) (now : Nat) : RateLimitEvent → List FixedWindow.Call
  | .incr _ store key timeWindow =>
    if store.counter key = k then [⟨now, timeWindow.toNat⟩] else []
  | _ => []

end RateLimitEvent

/-- How long the events take. -/
def elapsed : List RateLimitEvent → Nat
  | [] => 0
  | event :: events => event.passed + elapsed events

/-- The calls on the Valkey key `k`, the oldest first. -/
def callsOn (k : String) : Nat → List RateLimitEvent → List FixedWindow.Call
  | _, [] => []
  | now, event :: events => event.callOn k now ++ callsOn k (now + event.passed) events

/-- What the calls on a key say of the window at hand. -/
def readingOf (calls : List FixedWindow.Call) (now : Nat) : RateLimitReading :=
  match FixedWindow.current calls now with
  | none => ⟨0, 0⟩
  | some o => ⟨FixedWindow.count calls o, (o.ends : Int) - now⟩

/-- What the key holds after its calls. -/
def counterEntry (calls : List FixedWindow.Call) (now : Nat) : Option (Entry String Int) :=
  (FixedWindow.current calls now).map fun o => ⟨.str (FixedWindow.count calls o), some o.ends⟩

/-! ## What the scripts do -/

section Scripts
variable {s : Server String Int} {calls : List FixedWindow.Call} {now : Nat} {k : String}
  {timeWindow : Int}

theorem holdsStr_counterEntry (h : s.keys k = counterEntry calls now) : HoldsStr s.keys k := by
  intro e he
  rw [h, counterEntry, Option.map_eq_some_iff] at he
  obtain ⟨o, -, rfl⟩ := he
  exact ⟨_, rfl⟩

/-- **INCR_LUA** counts the call, and answers what the calls say then. -/
theorem incrLua_yields (hpos : 0 < timeWindow) (ht : FixedWindow.Timely calls s.clock)
    (hk : s.keys k = counterEntry calls s.clock) :
    let reading := readingOf (calls ++ [⟨s.clock, timeWindow.toNat⟩]) s.clock
    Yields (incrLua k timeWindow) s (reading.current, reading.ttl)
      (s.put k (counterEntry (calls ++ [⟨s.clock, timeWindow.toNat⟩]) s.clock)) := by
  intro reading
  have hincr := strIncr_yields (holdsStr_counterEntry hk)
  cases hcurrent : FixedWindow.current calls s.clock with
  | none =>
    -- the first call of a window sets its end
    rw [counterEntry, hcurrent] at hk
    obtain ⟨hopen, hcount⟩ := FixedWindow.current_open ht (Int.pos_iff_toNat_pos.mp hpos) hcurrent
    rw [hk] at hincr
    have hreading : reading = ⟨1, timeWindow⟩ := by
      simp only [reading, readingOf, hopen, hcount, FixedWindow.Call.ends]
      simp only [RateLimitReading.mk.injEq]
      omega
    rw [hreading, counterEntry, hopen, Option.map_some, hcount]
    refine hincr.bind ?_
    have hexpire := pexpire_yields (k := k) (s := s.put k (some (incremented none))) hpos
    rw [Server.put_put, Server.put_keys, Function.update_self] at hexpire
    exact hexpire.bind (Yields.pure _ _)
  | some o =>
    -- a later one leaves the end where it is
    rw [counterEntry, hcurrent] at hk
    obtain ⟨hopen, hcount⟩ := FixedWindow.current_continue ht timeWindow.toNat hcurrent
    have hsome := FixedWindow.count_pos (FixedWindow.current_eq_some.mp hcurrent).1
    rw [hk] at hincr
    have hreading : reading =
        ⟨FixedWindow.count calls o + 1, (o.ends : Int) - s.clock⟩ := by
      simp only [reading, readingOf, hopen, hcount]
      rfl
    have hlater : (FixedWindow.count calls o : Int) + 1 ≠ 1 := by omega
    rw [hreading, counterEntry, hopen, Option.map_some, hcount]
    refine hincr.bind ?_
    rw [Option.map_some, Entry.payload_str, Option.getD_some, if_neg hlater]
    refine pttl_yields.bind ?_
    rw [Server.put_keys, Function.update_self]
    exact Yields.pure _ _

/-- **READ_LUA** answers what the calls say, and leaves the keys alone. -/
theorem readLua_yields (hk : s.keys k = counterEntry calls s.clock) :
    Yields (readLua k) s
      ((readingOf calls s.clock).current, (readingOf calls s.clock).ttl) s := by
  have hget := strGet_yields (holdsStr_counterEntry hk)
  cases hcurrent : FixedWindow.current calls s.clock with
  | none =>
    rw [counterEntry, hcurrent] at hk
    rw [hk] at hget
    rw [readingOf, hcurrent]
    exact hget.bind (Yields.pure _ _)
  | some o =>
    rw [counterEntry, hcurrent] at hk
    rw [hk] at hget
    rw [readingOf, hcurrent]
    have hinside := (FixedWindow.current_eq_some.mp hcurrent).2
    have hleft : ¬ (o.ends : Int) - s.clock < 0 := by omega
    refine hget.bind (pttl_yields.bind ?_)
    rw [hk, Option.map_some, ttlOf, if_neg hleft]
    exact Yields.pure _ _

end Scripts

/-! ## One event -/

/-- The keys of Valkey are what the calls on them say. -/
structure Tracks (valkey : Server String Int) (calls : String → List FixedWindow.Call) : Prop where
  timely : ∀ k, FixedWindow.Timely (calls k) valkey.clock
  entry : ∀ k, valkey.expire.keys k = counterEntry (calls k) valkey.clock

/-- With time, the window ends when the key expires. -/
theorem counterEntry_later (calls : List FixedWindow.Call) {now now' : Nat} (hle : now ≤ now') :
    counterEntry calls now' = (counterEntry calls now).filter (·.aliveAt now') := by
  rw [counterEntry, counterEntry, FixedWindow.current_later hle, Option.filter_map]
  rfl

section Step
variable {valkey : Server String Int} {calls : String → List FixedWindow.Call} {k : String}
  {timeWindow : Int}

theorem Tracks.nil (h : ∀ k, valkey.keys k = none) : Tracks valkey fun _ => [] where
  timely _ := FixedWindow.timely_nil _
  entry k := by
    show (valkey.keys k).filter _ = none
    rw [h k, Option.filter_none]

theorem Tracks.tick (h : Tracks valkey calls) (ms : Nat) :
    Tracks { valkey with clock := valkey.clock + ms } calls where
  timely k := (h.timely k).later (Nat.le_add_right _ ms)
  entry k := by
    have hle := Nat.le_add_right valkey.clock ms
    rw [Server.expire_later valkey hle, h.entry k]
    exact (counterEntry_later (calls k) hle).symm

theorem Tracks.expire (h : Tracks valkey calls) : Tracks valkey.expire calls where
  timely := h.timely
  entry k := by
    rw [Server.expire_expire]
    exact h.entry k

/-- The keys of Valkey stay what the calls on them say when one of them gets a call. -/
theorem Tracks.call (h : Tracks valkey calls) (hpos : 0 < timeWindow) (k : String) :
    Tracks (valkey.expire.put k (counterEntry (calls k ++ [⟨valkey.clock, timeWindow.toNat⟩]) valkey.clock))
      fun j => calls j ++ if k = j then [⟨valkey.clock, timeWindow.toNat⟩] else [] where
  timely j := by
    by_cases hj : k = j
    · rw [if_pos hj]
      exact (h.timely j).concat (Int.pos_iff_toNat_pos.mp hpos)
    · rw [if_neg hj, List.append_nil]
      exact h.timely j
  entry j := by
    rw [Server.expire_put, Server.expire_expire, Server.put_keys]
    by_cases hj : k = j
    · subst hj
      rw [Function.update_self, if_pos rfl]
      exact (counterEntry_later _ le_rfl).symm
    · rw [Function.update_of_ne (Ne.symm hj), if_neg hj, List.append_nil]
      exact h.entry j

variable {store : ValkeyRateLimitStore} {health : StoreHealth} {key : String}

theorem incr_result (h : Tracks valkey calls) (hpos : 0 < timeWindow) :
    let called := calls (store.counter key) ++ [⟨valkey.clock, timeWindow.toNat⟩]
    let reply := store.incr health valkey key timeWindow
    reply.result = .ok (readingOf called valkey.clock) ∧
      reply.valkey = valkey.expire.put (store.counter key) (counterEntry called valkey.clock) := by
  intro called reply
  have hscript := (incrLua_yields (k := store.counter key) (s := valkey.expire) hpos
    (h.timely _) (h.entry _)).eval
  simp only [reply, ValkeyRateLimitStore.incr, hscript]
  exact ⟨rfl, rfl⟩

theorem read_result (h : Tracks valkey calls) :
    let reply := store.read health valkey key
    reply.result = .ok (readingOf (calls (store.counter key)) valkey.clock) ∧
      reply.valkey = valkey.expire := by
  intro reply
  have hscript := (readLua_yields (k := store.counter key) (s := valkey.expire)
    (h.entry _)).eval
  simp only [reply, ValkeyRateLimitStore.read, hscript]
  exact ⟨rfl, rfl⟩

end Step

/-- **One event** keeps the keys what the calls say. -/
theorem Tracks.step {s : RateLimiter} {calls : String → List FixedWindow.Call}
    (h : Tracks s.valkey calls) {event : RateLimitEvent} (hpos : event.Positive) :
    Tracks (s.step event).valkey fun k => calls k ++ event.callOn k s.valkey.clock := by
  cases event with
  | tick ms =>
    simp only [RateLimitEvent.callOn, List.append_nil]
    exact h.tick ms
  | incr process store key timeWindow =>
    rw [RateLimiter.step, RateLimiter.settle]
    rw [(incr_result h hpos).2]
    exact h.call hpos (store.counter key)
  | read process store key =>
    simp only [RateLimitEvent.callOn, List.append_nil]
    rw [RateLimiter.step, RateLimiter.settle, (read_result h).2]
    exact h.expire

/-! ## Every run -/

theorem Tracks.clock_step {s : RateLimiter} {calls : String → List FixedWindow.Call}
    (h : Tracks s.valkey calls) {event : RateLimitEvent} (hpos : event.Positive) :
    (s.step event).valkey.clock = s.valkey.clock + event.passed := by
  cases event with
  | tick ms => rfl
  | incr process store key timeWindow =>
    rw [RateLimiter.step, RateLimiter.settle]
    show (store.incr _ _ _ _).valkey.clock = _
    rw [(incr_result h hpos).2]
    rfl
  | read process store key =>
    rw [RateLimiter.step, RateLimiter.settle]
    show (store.read _ _ _).valkey.clock = _
    rw [(read_result h).2]
    rfl

theorem callsOn_concat (k : String) (now : Nat) (events : List RateLimitEvent)
    (event : RateLimitEvent) :
    callsOn k now (events ++ [event]) =
      callsOn k now events ++ event.callOn k (now + elapsed events) := by
  induction events generalizing now with
  | nil => simp [callsOn, elapsed]
  | cons first events ih =>
    rw [List.cons_append, callsOn, callsOn, ih, List.append_assoc, elapsed, Nat.add_assoc]

theorem elapsed_concat (events : List RateLimitEvent) (event : RateLimitEvent) :
    elapsed (events ++ [event]) = elapsed events + event.passed := by
  induction events with
  | nil => exact (Nat.zero_add _).symm
  | cons first events ih => rw [List.cons_append, elapsed, ih, elapsed, Nat.add_assoc]

/-- **In every run**, the keys of Valkey are what the calls on them say. -/
theorem tracks_run {start : RateLimiter} (hempty : ∀ k, start.valkey.keys k = none)
    {events : List RateLimitEvent} (hpos : ∀ event ∈ events, event.Positive) :
    Tracks (start.run events).valkey (fun k => callsOn k start.valkey.clock events) ∧
      (start.run events).valkey.clock = start.valkey.clock + elapsed events := by
  induction events using List.reverseRecOn with
  | nil => exact ⟨Tracks.nil hempty, rfl⟩
  | append_singleton events event ih =>
    have hevent : event.Positive :=
      hpos event (List.mem_append_right events (List.mem_singleton_self event))
    obtain ⟨htracks, hclock⟩ := ih fun e he => hpos e (List.mem_append_left _ he)
    have hrun : start.run (events ++ [event]) = (start.run events).step event := by
      rw [RateLimiter.run, List.foldl_append]
      rfl
    have hcalls : (fun k => callsOn k start.valkey.clock (events ++ [event])) = fun k =>
        callsOn k start.valkey.clock events ++ event.callOn k (start.run events).valkey.clock := by
      funext k
      rw [callsOn_concat, hclock]
    rw [hrun, hcalls]
    refine ⟨htracks.step hevent, ?_⟩
    rw [htracks.clock_step hevent, hclock, elapsed_concat, Nat.add_assoc]

/-! ## Whose counter it is -/

namespace ValkeyRateLimitStore
variable {store : ValkeyRateLimitStore} {options options' : RouteOptions} {key key' : String}

theorem child_counter_toList (store : ValkeyRateLimitStore) (options : RouteOptions) (key : String) :
    ((store.child options).counter key).toList =
      (store.counter (options.methodText ++ options.urlText)).toList ++ '-' :: key.toList := by
  simp [counter, child]

/-- The counters of the global store are no route's. -/
theorem counter_ne_child (hkey : '-' ∉ key.toList) :
    store.counter key ≠ (store.child options).counter key' := by
  intro h
  have hchars := congrArg String.toList h
  rw [child_counter_toList, counter, counter, String.toList_append, String.toList_append,
    List.append_assoc, List.append_cancel_left_eq] at hchars
  rw [hchars] at hkey
  exact hkey (List.mem_append_right _ List.mem_cons_self)

/-- Two routes share a counter when their methods and paths are the same in a row. -/
theorem child_counter_eq (hkey : '-' ∉ key.toList) (hkey' : '-' ∉ key'.toList) :
    (store.child options).counter key = (store.child options').counter key' ↔
      options.methodText ++ options.urlText = options'.methodText ++ options'.urlText ∧
        key = key' := by
  constructor
  · intro h
    have hchars := congrArg String.toList h
    rw [child_counter_toList, child_counter_toList] at hchars
    obtain ⟨hroute, hsame⟩ := Words.split_unique_last hkey hkey' hchars
    exact ⟨(String.append_right_inj store.prefix_).mp (String.toList_inj.mp hroute),
      String.toList_inj.mp hsame⟩
  · rintro ⟨hroute, rfl⟩
    rw [← String.toList_inj, child_counter_toList, child_counter_toList, hroute]

end ValkeyRateLimitStore

/-- A method has no slash in it, and a path starts with one. -/
def RouteOptions.Rooted (options : RouteOptions) : Prop :=
  '/' ∉ options.methodText.toList ∧ options.urlText.toList.head? = some '/'

/-- Two routes with rooted paths whose methods and paths are the same in a row are one route. -/
theorem RouteOptions.Rooted.same {options options' : RouteOptions} (h : options.Rooted)
    (h' : options'.Rooted)
    (hsame : options.methodText ++ options.urlText = options'.methodText ++ options'.urlText) :
    options.methodText = options'.methodText ∧ options.urlText = options'.urlText := by
  obtain ⟨rest, hrest⟩ := List.head?_eq_some_iff.mp h.2
  obtain ⟨rest', hrest'⟩ := List.head?_eq_some_iff.mp h'.2
  have hchars := congrArg String.toList hsame
  rw [String.toList_append, String.toList_append, hrest, hrest'] at hchars
  obtain ⟨hmethod, htail⟩ := Words.split_unique h.1 h'.1 hchars
  refine ⟨String.toList_inj.mp hmethod, String.toList_inj.mp ?_⟩
  rw [hrest, hrest', htail]

/-- What `incr` must answer, when the calls on the key are `calls`, this one included. -/
def Counted (calls : List FixedWindow.Call) (now : Nat)
    (result : Except RateLimitStoreUnavailable RateLimitReading) : Prop :=
  ∃ o reading, result = .ok reading ∧ FixedWindow.current calls now = some o ∧
    reading.current = FixedWindow.count calls o ∧ reading.ttl = (o.ends : Int) - now ∧
    0 < reading.ttl ∧ reading.ttl ≤ o.length

theorem counted_concat {calls : List FixedWindow.Call} {now : Nat} {timeWindow : Int}
    (h : FixedWindow.Timely calls now) (hpos : 0 < timeWindow) :
    let called := calls ++ [⟨now, timeWindow.toNat⟩]
    Counted called now (.ok (readingOf called now)) := by
  intro called
  obtain ⟨o, hopen⟩ : ∃ o, FixedWindow.current called now = some o := by
    cases hcurrent : FixedWindow.current calls now with
    | none => exact ⟨_, (FixedWindow.current_open h (Int.pos_iff_toNat_pos.mp hpos) hcurrent).1⟩
    | some o => exact ⟨o, (FixedWindow.current_continue h _ hcurrent).1⟩
  obtain ⟨hopener, hinside⟩ := FixedWindow.current_eq_some.mp hopen
  have hpast : o.time ≤ now :=
    (h.concat (Int.pos_iff_toNat_pos.mp hpos)).past o (FixedWindow.opener_mem hopener)
  have hends : o.ends = o.time + o.length := rfl
  refine ⟨o, _, rfl, hopen, ?_⟩
  rw [readingOf, hopen]
  refine ⟨rfl, rfl, ?_, ?_⟩
  · show (0 : Int) < (o.ends : Int) - now
    omega
  · show (o.ends : Int) - now ≤ o.length
    omega

/-- **Every instance counts in the same windows.**  After any run, `incr` answers how many calls
the window at hand has and what is left of it, `read` answers the same and changes nothing, and
no route counts for another. -/
theorem one_quota {start : RateLimiter} (hempty : ∀ k, start.valkey.keys k = none)
    {events : List RateLimitEvent} (hpos : ∀ event ∈ events, event.Positive) :
    let s := start.run events
    let now := s.valkey.clock
    (∀ process (store : ValkeyRateLimitStore) key timeWindow, 0 < timeWindow →
      Counted
        (callsOn (store.counter key) start.valkey.clock
          (events ++ [.incr process store key timeWindow])) now
        (store.incr (s.health process) s.valkey key timeWindow).result) ∧
    (∀ process (store : ValkeyRateLimitStore) key,
      (store.read (s.health process) s.valkey key).result =
        .ok (readingOf (callsOn (store.counter key) start.valkey.clock events) now) ∧
      (store.read (s.health process) s.valkey key).valkey = s.valkey.expire) ∧
    ∀ («namespace» : String) (options options' : RouteOptions) (key key' : String),
      '-' ∉ key.toList → '-' ∉ key'.toList →
      let store := createValkeyStore «namespace»
      store.counter key ≠ (store.child options).counter key' ∧
      ((store.child options).counter key = (store.child options').counter key' ↔
        options.methodText ++ options.urlText = options'.methodText ++ options'.urlText ∧
          key = key') ∧
      (options.Rooted → options'.Rooted →
        (options.methodText, options.urlText) ≠ (options'.methodText, options'.urlText) →
        (store.child options).counter key ≠ (store.child options').counter key') := by
  intro s now
  obtain ⟨htracks, hclock⟩ := tracks_run hempty hpos
  refine ⟨?_, ?_, ?_⟩
  · intro process store key timeWindow hwindow
    rw [callsOn_concat, ← hclock, RateLimitEvent.callOn, if_pos rfl, (incr_result htracks hwindow).1]
    exact counted_concat (htracks.timely _) hwindow
  · intro process store key
    exact read_result htracks
  · -- the address is behind the last hyphen, so two counters are one only for one route
    intro «namespace» options options' key key' hkey hkey' store
    have hshared : (store.child options).counter key = (store.child options').counter key' ↔ _ :=
      ValkeyRateLimitStore.child_counter_eq hkey hkey'
    refine ⟨ValkeyRateLimitStore.counter_ne_child hkey, hshared, ?_⟩
    intro hrooted hrooted' hne hsame
    obtain ⟨hmethod, hurl⟩ := hrooted.same hrooted' (hshared.mp hsame).1
    exact hne (Prod.ext hmethod hurl)

/-- Two calls of one address at once, on the login route, are counted in one window. -/
theorem one_quota_login :
    let start : RateLimiter := ⟨⟨7, fun _ => none⟩, fun _ => {}⟩
    let login := (createValkeyStore "presslabz:rl:").child
      { routeInfo := some ⟨"POST", "/v1/auth/login"⟩ }
    Counted
      (callsOn (login.counter "192.0.2.1") 7
        ([.incr 0 login "192.0.2.1" 60000] ++ [.incr 1 login "192.0.2.1" 60000])) 7
      (login.incr {} (start.run [.incr 0 login "192.0.2.1" 60000]).valkey "192.0.2.1"
        60000).result :=
  (@one_quota ⟨⟨7, fun _ => none⟩, fun _ => {}⟩ (fun _ => rfl)
    [.incr 0 ((createValkeyStore "presslabz:rl:").child
      { routeInfo := some ⟨"POST", "/v1/auth/login"⟩ }) "192.0.2.1" 60000]
    (by simp [RateLimitEvent.Positive])).1 1 _ _ _ (by decide)

/-- The method and the path are put one after the other, with nothing between them: the
first call on a route is the second on its counter. -/
theorem routes_share_a_counter :
    let store := createValkeyStore "presslabz:rl:"
    let get : RouteOptions := { routeInfo := some ⟨"GET", "/a"⟩ }
    let ge : RouteOptions := { routeInfo := some ⟨"GE", "T/a"⟩ }
    let start : RateLimiter := ⟨⟨7, fun _ => none⟩, fun _ => {}⟩
    let s := start.run [.incr 0 (store.child get) "192.0.2.1" 60000]
    (get.methodText, get.urlText) ≠ (ge.methodText, ge.urlText) ∧ '-' ∉ "192.0.2.1".toList ∧
      (store.child get).counter "192.0.2.1" = (store.child ge).counter "192.0.2.1" ∧
      ((store.child ge).incr (s.health 0) s.valkey "192.0.2.1" 60000).result.toOption =
        some ⟨2, 60000⟩ := by
  decide +kernel

end PressLabz
