import Patchli.Foundation.Expiring
import Patchli.Foundation.FixedWindow
import Patchli.Foundation.GoString

/-!
# The rate limiter

`RateLimiter` of `middleware.go`, whose calls the mutex orders. To each client it is a
fixed window of its own: dropping windows that have ended from a large table changes no
answer.
-/

namespace Patchli.Api

abbrev RateWindow := FixedWindow.Window

structure RateLimiter where
  limit : ℕ
  /-- A `time.Duration`. -/
  window : Int64
  clients : Std.ExtTreeMap GoString RateWindow

def newRateLimiter (limit : ℕ) (window : Int64) : RateLimiter := ⟨limit, window, ∅⟩

/-- The table has grown beyond this size. -/
def maxClients : ℕ := 10000

/-- The table, without the windows that have ended when it has grown large. -/
def RateLimiter.dropExpired (rl : RateLimiter) (now : Time) : Std.ExtTreeMap GoString RateWindow :=
  if maxClients < rl.clients.size then
    rl.clients.filter fun _ v => !decide (rl.window.toInt ≤ Time.sub now v.start)
  else rl.clients

/-- The answer to a request of `ip` at `now`, and the limiter afterwards. -/
def RateLimiter.allow (rl : RateLimiter) (now : Time) (ip : GoString) : Bool × RateLimiter :=
  let clients := rl.dropExpired now
  match clients[ip]? with
  | none => (true, { rl with clients := clients.insert ip ⟨now, 1⟩ })
  | some w =>
    if rl.window.toInt ≤ Time.sub now w.start then
      (true, { rl with clients := clients.insert ip ⟨now, 1⟩ })
    else if rl.limit ≤ w.count then (false, { rl with clients := clients })
    else (true, { rl with clients := clients.insert ip ⟨w.start, w.count + 1⟩ })

structure RateCall where
  ip : GoString
  now : Time

def RateLimiter.answered : RateLimiter → List RateCall → List (RateCall × Bool)
  | _, [] => []
  | rl, c :: calls =>
    let (allowed, rl) := rl.allow c.now c.ip
    (c, allowed) :: rl.answered calls

def RateLimiter.after (rl : RateLimiter) (calls : List RateCall) : RateLimiter :=
  calls.foldl (fun rl c => (rl.allow c.now c.ip).2) rl

/-- How many calls of `ip` are allowed from `lo` until before `hi`. -/
def RateLimiter.allowedIn (rl : RateLimiter) (ip : GoString) (lo hi : Time)
    (calls : List RateCall) : ℕ :=
  (rl.answered calls).countP fun p => p.1.ip = ip ∧ p.2 ∧ lo ≤ p.1.now ∧ p.1.now < hi

/-- The call finds no window of its address, or one that has ended. -/
def RateLimiter.Starts (rl : RateLimiter) (c : RateCall) : Prop :=
  ∀ w, rl.clients[c.ip]? = some w → rl.window.toInt ≤ Time.sub c.now w.start

/-! ### One client -/

/-- A window that has ended stays so. -/
def ended (window : Int64) : Lapse Time RateWindow where
  lapsed now w := window.toInt ≤ Time.sub now w.start
  mono := by
    intro now later w hle hlapsed
    have hended : window.toInt ≤ Time.sub now w.start := of_decide_eq_true hlapsed
    exact decide_eq_true (hended.trans (Time.sub_mono hle w.start))

variable {rl : RateLimiter} {limit : ℕ} {window : Int64} {now now' : Time} {ip other : GoString}
  {o : Option RateWindow} {calls : List RateCall}

theorem le_sub_iff (hwindow : 0 < window.toInt) (now start : Time) :
    window.toInt ≤ Time.sub now start ↔ window.toInt ≤ now - start := by
  have hlow : -2 ^ 63 < window.toInt := by omega
  rw [← not_lt, ← not_lt, Time.sub_lt_iff hlow window.toInt_lt]

theorem step_live (hwindow : 0 < window.toInt) (limit : ℕ) (now : Time) (o : Option RateWindow) :
    FixedWindow.step limit window.toInt (o.filter fun w => !(ended window).lapsed now w) now =
      FixedWindow.step limit window.toInt o now := by
  cases o with
  | none => rfl
  | some w =>
    by_cases h : window.toInt ≤ now - w.start
    · simp [FixedWindow.step, ended, le_sub_iff hwindow, Option.filter, h]
    · simp [ended, le_sub_iff hwindow, Option.filter, h]

/-- The client's entry is `o`, as far as it has not ended. -/
def RateLimiter.Has (rl : RateLimiter) (now : Time) (ip : GoString) (o : Option RateWindow) :
    Prop :=
  (ended rl.window).AgreeAt now ip (fun k : GoString => rl.clients[k]?) (fun _ => o)

theorem RateLimiter.Has.later (h : rl.Has now ip o) (hle : now ≤ now') : rl.Has now' ip o :=
  h.mono hle

theorem dropExpired_live (rl : RateLimiter) (now : Time) (ip : GoString) :
    (rl.dropExpired now)[ip]? = rl.clients[ip]? ∨
      (rl.dropExpired now)[ip]? =
        (ended rl.window).live now (fun k : GoString => rl.clients[k]?) ip := by
  unfold RateLimiter.dropExpired
  split
  · right
    simp [Lapse.live, ended]
  · exact Or.inl rfl

theorem RateLimiter.Has.dropExpired (h : rl.Has now ip o) :
    (rl.dropExpired now)[ip]?.filter (fun w => !(ended rl.window).lapsed now w) =
      o.filter (fun w => !(ended rl.window).lapsed now w) := by
  rcases dropExpired_live rl now ip with heq | heq
  · rw [heq]
    exact h
  · rw [heq]
    exact h.live_left

/-- A call decides by the entry of its own address and writes only there. -/
theorem allow_spec (hwindow : 0 < rl.window.toInt) (now : Time) (ip : GoString) :
    (rl.allow now ip).1 =
        (FixedWindow.step rl.limit rl.window.toInt (rl.dropExpired now)[ip]? now).1 ∧
      (rl.allow now ip).2.clients[ip]? =
        some (FixedWindow.step rl.limit rl.window.toInt (rl.dropExpired now)[ip]? now).2 ∧
      (∀ k ≠ ip, (rl.allow now ip).2.clients[k]? = (rl.dropExpired now)[k]?) ∧
      (rl.allow now ip).2.limit = rl.limit ∧ (rl.allow now ip).2.window = rl.window := by
  unfold RateLimiter.allow FixedWindow.step
  dsimp only
  cases hentry : (rl.dropExpired now)[ip]? with
  | none =>
    refine ⟨rfl, by simp, fun k hk => ?_, rfl, rfl⟩
    simp [Std.ExtTreeMap.getElem?_insert, hk.symm]
  | some w =>
    dsimp only
    simp only [le_sub_iff hwindow]
    split_ifs
    · refine ⟨rfl, by simp, fun k hk => ?_, rfl, rfl⟩
      simp [Std.ExtTreeMap.getElem?_insert, hk.symm]
    · exact ⟨rfl, hentry, fun _ _ => rfl, rfl, rfl⟩
    · refine ⟨rfl, by simp, fun k hk => ?_, rfl, rfl⟩
      simp [Std.ExtTreeMap.getElem?_insert, hk.symm]

theorem RateLimiter.Has.allow (hwindow : 0 < rl.window.toInt) (h : rl.Has now ip o) :
    (rl.allow now ip).1 = (FixedWindow.step rl.limit rl.window.toInt o now).1 ∧
      (rl.allow now ip).2.Has now ip
        (some (FixedWindow.step rl.limit rl.window.toInt o now).2) := by
  obtain ⟨hanswer, hself, -, -, -⟩ := allow_spec hwindow now ip
  have hentry : FixedWindow.step rl.limit rl.window.toInt (rl.dropExpired now)[ip]? now =
      FixedWindow.step rl.limit rl.window.toInt o now := by
    rw [← step_live hwindow, h.dropExpired, step_live hwindow]
  rw [hentry] at hanswer hself
  refine ⟨hanswer, ?_⟩
  simp only [RateLimiter.Has, Lapse.AgreeAt, Lapse.live, hself]

theorem RateLimiter.Has.allow_other (hwindow : 0 < rl.window.toInt) (h : rl.Has now ip o)
    (hother : ip ≠ other) : (rl.allow now other).2.Has now ip o := by
  obtain ⟨-, -, hrest, -, hwindow'⟩ := allow_spec hwindow now other
  have hlive := h.dropExpired
  simp only [RateLimiter.Has, Lapse.AgreeAt, Lapse.live, hrest ip hother, hwindow', hlive]

/-! ### Any calls -/

/-- The readings of the clock at the calls of `ip`. -/
def timesOf (ip : GoString) (calls : List RateCall) : List Time :=
  (calls.filter fun c => c.ip = ip).map RateCall.now

/-- The answers to a client, and what the limiter then keeps of it, are those of a window of
its own. -/
theorem RateLimiter.Has.run (hwindow : 0 < rl.window.toInt) (h : rl.Has now ip o)
    (hnow : ∀ c ∈ calls, now ≤ c.now) (hsorted : calls.Pairwise fun c d => c.now ≤ d.now) :
    (rl.answered calls).filter (fun p => p.1.ip = ip) =
        (calls.filter fun c => c.ip = ip).zip
          (FixedWindow.verdicts rl.limit rl.window.toInt o (timesOf ip calls)) ∧
      ∀ t, now ≤ t → (∀ c ∈ calls, c.now ≤ t) →
        (rl.after calls).Has t ip
          (FixedWindow.after rl.limit rl.window.toInt o (timesOf ip calls)) := by
  induction calls generalizing rl now o with
  | nil => exact ⟨rfl, fun t ht _ => h.later ht⟩
  | cons c calls ih =>
    obtain ⟨hfirst, hsorted⟩ := List.pairwise_cons.mp hsorted
    have hc := h.later (hnow c (List.mem_cons_self ..))
    obtain ⟨-, -, -, hlimit, hwindow'⟩ := allow_spec hwindow c.now c.ip
    have hpos : 0 < (rl.allow c.now c.ip).2.window.toInt := by rwa [hwindow']
    by_cases hip : c.ip = ip
    · subst hip
      obtain ⟨hanswer, hnext⟩ := hc.allow hwindow
      obtain ⟨hanswers, hafter⟩ := ih hpos hnext hfirst hsorted
      rw [hlimit, hwindow'] at hanswers hafter
      constructor
      · simp [RateLimiter.answered, timesOf, FixedWindow.verdicts, hanswer, hanswers]
      · intro t ht hall
        have hrest := hafter t (hall c (List.mem_cons_self ..))
          (fun d hd => hall d (List.mem_cons_of_mem _ hd))
        simpa [RateLimiter.after, timesOf, FixedWindow.after] using hrest
    · obtain ⟨hanswers, hafter⟩ :=
        ih hpos (hc.allow_other hwindow (Ne.symm hip)) hfirst hsorted
      rw [hlimit, hwindow'] at hanswers hafter
      constructor
      · simp [RateLimiter.answered, timesOf, hip, hanswers]
      · intro t ht hall
        have hrest := hafter t (hall c (List.mem_cons_self ..))
          (fun d hd => hall d (List.mem_cons_of_mem _ hd))
        simpa [RateLimiter.after, timesOf, hip] using hrest

theorem after_window (hwindow : 0 < rl.window.toInt) (calls : List RateCall) :
    (rl.after calls).window = rl.window := by
  induction calls generalizing rl with
  | nil => rfl
  | cons c calls ih =>
    obtain ⟨-, -, -, -, hwindow'⟩ := allow_spec hwindow c.now c.ip
    have hpos : 0 < (rl.allow c.now c.ip).2.window.toInt := by rwa [hwindow']
    exact (ih hpos).trans hwindow'

theorem answered_fst (rl : RateLimiter) (calls : List RateCall) :
    (rl.answered calls).map Prod.fst = calls := by
  induction calls generalizing rl with
  | nil => rfl
  | cons c calls ih => simp [RateLimiter.answered, ih]

theorem initial_has (limit : ℕ) (window : Int64) (now : Time) (ip : GoString) :
    (newRateLimiter limit window).Has now ip none := by
  simp [RateLimiter.Has, Lapse.AgreeAt, Lapse.live, newRateLimiter]

theorem exists_le_of_sorted (hsorted : calls.Pairwise fun c d => c.now ≤ d.now) :
    ∃ start, ∀ c ∈ calls, start ≤ c.now := by
  cases calls with
  | nil => exact ⟨0, by simp⟩
  | cons c calls => exact ⟨c.now, Time.first_le hsorted⟩

theorem answered_filter (limit : ℕ) (hwindow : 0 < window.toInt)
    (hsorted : calls.Pairwise fun c d => c.now ≤ d.now) (ip : GoString) :
    ((newRateLimiter limit window).answered calls).filter (fun p => p.1.ip = ip) =
      (calls.filter fun c => c.ip = ip).zip
        (FixedWindow.verdicts limit window.toInt none (timesOf ip calls)) := by
  obtain ⟨start, hstart⟩ := exists_le_of_sorted hsorted
  exact ((initial_has limit window start ip).run hwindow hstart hsorted).1

theorem allowedIn_eq (limit : ℕ) (hwindow : 0 < window.toInt)
    (hsorted : calls.Pairwise fun c d => c.now ≤ d.now) (ip : GoString) (lo hi : Time) :
    (newRateLimiter limit window).allowedIn ip lo hi calls =
      FixedWindow.admittedIn limit window.toInt lo hi none (timesOf ip calls) := by
  have hfilter := answered_filter limit hwindow hsorted ip
  rw [FixedWindow.admittedIn, timesOf, List.zip_map_left, List.countP_map, ← timesOf, ← hfilter,
    List.countP_filter, RateLimiter.allowedIn]
  apply List.countP_congr
  rintro ⟨c, allowed⟩ -
  simp only [Function.comp_apply, Prod.map_apply, id_eq, Bool.and_eq_true, decide_eq_true_eq]
  tauto

theorem sorted_timesOf (hsorted : calls.Pairwise fun c d => c.now ≤ d.now) (ip : GoString) :
    (timesOf ip calls).Pairwise (· ≤ ·) :=
  List.pairwise_map.mpr (hsorted.filter _)

theorem allowedIn_started {earlier later : List RateCall} {c : RateCall} (hlimit : 1 ≤ limit)
    (hwindow : 0 < window.toInt)
    (hsorted : (earlier ++ c :: later).Pairwise fun c d => c.now ≤ d.now)
    (hstarts : ((newRateLimiter limit window).after earlier).Starts c) :
    (newRateLimiter limit window).allowedIn c.ip c.now (c.now + window.toInt)
      (earlier ++ c :: later) ≤ limit := by
  obtain ⟨hearlier, -, hcross⟩ := List.pairwise_append.mp hsorted
  have hbefore : ∀ d ∈ earlier, d.now ≤ c.now := fun d hd => hcross d hd c (List.mem_cons_self ..)
  have htimes : timesOf c.ip (earlier ++ c :: later) =
      timesOf c.ip earlier ++ c.now :: timesOf c.ip later := by
    simp [timesOf]
  have hsortedTimes := sorted_timesOf hsorted c.ip
  rw [allowedIn_eq limit hwindow hsorted, htimes]
  rw [htimes] at hsortedTimes
  apply FixedWindow.admittedIn_started hlimit hwindow ?_ hsortedTimes
  intro w hw
  obtain ⟨start, hstart⟩ := exists_le_of_sorted hsorted
  have hhas := ((initial_has limit window start c.ip).run hwindow
    (fun d hd => hstart d (List.mem_append_left _ hd)) hearlier).2 c.now
    (hstart c (List.mem_append_right _ (List.mem_cons_self ..))) hbefore
  have hsame : ((newRateLimiter limit window).after earlier).window = window :=
    after_window hwindow earlier
  -- neither the entry nor the window is live
  have hnone : (ended ((newRateLimiter limit window).after earlier).window).live c.now
      (fun k : GoString => ((newRateLimiter limit window).after earlier).clients[k]?) c.ip = none :=
    Lapse.live_eq_none _ |>.mpr fun v hv => decide_eq_true (hstarts v hv)
  rw [show _ = _ from hhas, Lapse.live_eq_none, hsame] at hnone
  have hlapsed : window.toInt ≤ Time.sub c.now w.start := of_decide_eq_true (hnone w hw)
  rw [le_sub_iff hwindow] at hlapsed
  omega

/-- Each client is held to the limit, however often others call. -/
theorem limits_each_client (hlimit : 1 ≤ limit) (hwindow : 0 < window.toInt)
    (hsorted : calls.Pairwise fun c d => c.now ≤ d.now) (ip : GoString) :
    (∀ t, (newRateLimiter limit window).allowedIn ip t (t + window.toInt) calls ≤ 2 * limit - 1) ∧
      (∀ earlier c later, calls = earlier ++ c :: later → c.ip = ip →
        ((newRateLimiter limit window).after earlier).Starts c →
        (newRateLimiter limit window).allowedIn ip c.now (c.now + window.toInt) calls ≤ limit) ∧
      ((newRateLimiter limit window).answered calls).filter (fun p => p.1.ip = ip) =
        (newRateLimiter limit window).answered (calls.filter fun c => c.ip = ip) := by
  refine ⟨fun t => ?_, ?_, ?_⟩
  · rw [allowedIn_eq limit hwindow hsorted]
    exact FixedWindow.admittedIn_interval hlimit (by simp) (sorted_timesOf hsorted ip)
  · rintro earlier c later rfl rfl hstarts
    exact allowedIn_started hlimit hwindow hsorted hstarts
  · -- alone the client gets the answers of the same window
    have halone := answered_filter limit hwindow (hsorted.filter fun c => c.ip = ip) ip
    have hall : ∀ p ∈ (newRateLimiter limit window).answered (calls.filter fun c => c.ip = ip),
        decide (p.1.ip = ip) = true := by
      intro p hp
      have hmem : p.1 ∈ calls.filter fun c => c.ip = ip := by
        rw [← answered_fst (newRateLimiter limit window) (calls.filter fun c => c.ip = ip)]
        exact List.mem_map_of_mem hp
      exact (List.mem_filter.mp hmem).2
    rw [List.filter_eq_self.mpr hall] at halone
    rw [halone, answered_filter limit hwindow hsorted]
    simp [timesOf, List.filter_filter]

theorem limits_each_client_bursts :
    (newRateLimiter 2 60000000000).allowedIn (ascii "10.0.0.1") (59 * second) (119 * second)
        [⟨ascii "10.0.0.1", 0⟩, ⟨ascii "10.0.0.1", 59 * second⟩, ⟨ascii "10.0.0.2", 59 * second⟩,
          ⟨ascii "10.0.0.1", 60 * second⟩, ⟨ascii "10.0.0.1", 60 * second⟩] = 3 ∧
      (newRateLimiter 2 60000000000).allowedIn (ascii "10.0.0.1") (59 * second)
        (59 * second + (60000000000 : Int64).toInt)
        [⟨ascii "10.0.0.1", 0⟩, ⟨ascii "10.0.0.1", 59 * second⟩, ⟨ascii "10.0.0.2", 59 * second⟩,
          ⟨ascii "10.0.0.1", 60 * second⟩, ⟨ascii "10.0.0.1", 60 * second⟩] ≤ 2 * 2 - 1 :=
  ⟨by decide +kernel,
    (limits_each_client (by decide) (by decide) (by decide) (ascii "10.0.0.1")).1 (59 * second)⟩

end Patchli.Api
