/-
# Connections per address and per subnet

`ConnectionTracker` of `src/network/connection_tracker.rs` counts the connections of each IP address,
and the outbound ones of each subnet, in two concurrent maps.  `try_track_*` tests and counts under
the lock of the entry, in one step.  `untrack_*` counts down under the lock, drops it, and then
removes the key if it has seen zero: two steps, and other threads run in between.
-/
import Coincync.Lib.Slots

namespace Coincync

open Lib

/-! ## 1. The tracker -/

/-- `IpAddr`: four octets or eight segments. -/
inductive IpAddr
  | v4 (a b c d : UInt8)
  | v6 (s₀ s₁ s₂ s₃ s₄ s₅ s₆ s₇ : UInt16)
  deriving DecidableEq

structure SocketAddr where
  ip : IpAddr
  port : UInt16
  deriving DecidableEq

def maxConnectionsPerIp : Nat := 2

def maxOutboundPerSubnet : Nat := 2

/-- `subnet_key`: the first two octets, or the first two segments. -/
def IpAddr.subnetKey : IpAddr → UInt32
  | .v4 a b _ _ => (a.toUInt32 <<< 8) ||| b.toUInt32
  | .v6 s₀ s₁ _ _ _ _ _ _ => (s₀.toUInt32 <<< 16) ||| s₁.toUInt32

def SocketAddr.subnet (addr : SocketAddr) : UInt32 := addr.ip.subnetKey

/-- `ConnectionTracker`, the two maps. -/
structure ConnectionTracker where
  connectionsPerIp : Map IpAddr Nat
  outboundPerSubnet : Map UInt32 Nat

namespace ConnectionTracker

def new : ConnectionTracker := ⟨∅, ∅⟩

variable (tracker : ConnectionTracker) (addr : SocketAddr)

def tryTrackConnection : Bool × ConnectionTracker :=
  let r := takeSlot maxConnectionsPerIp tracker.connectionsPerIp addr.ip
  (r.1, { tracker with connectionsPerIp := r.2 })

def tryTrackOutboundSubnet : Bool × ConnectionTracker :=
  let r := takeSlot maxOutboundPerSubnet tracker.outboundPerSubnet addr.subnet
  (r.1, { tracker with outboundPerSubnet := r.2 })

/-- `untrack_connection` under the lock of the entry. -/
def untrackConnectionLocked : Bool × ConnectionTracker :=
  let r := decrement tracker.connectionsPerIp addr.ip
  (r.1, { tracker with connectionsPerIp := r.2 })

/-- `untrack_connection` after the lock is dropped: `connections_per_ip.remove`. -/
def untrackConnectionRemove : ConnectionTracker :=
  { tracker with connectionsPerIp := tracker.connectionsPerIp.erase addr.ip }

/-- `untrack_outbound_subnet` under the lock of the entry. -/
def untrackOutboundSubnetLocked : Bool × ConnectionTracker :=
  let r := decrement tracker.outboundPerSubnet addr.subnet
  (r.1, { tracker with outboundPerSubnet := r.2 })

/-- `untrack_outbound_subnet` after the lock is dropped. -/
def untrackOutboundSubnetRemove : ConnectionTracker :=
  { tracker with outboundPerSubnet := tracker.outboundPerSubnet.erase addr.subnet }

end ConnectionTracker

/-! ## 2. Threads -/

/-- The connections that are tracked and live, and the threads between the two steps of an
`untrack`, each with the address. -/
structure Traffic (C T : Type) where
  live : Map C SocketAddr
  removing : Map T SocketAddr

/-- The tracker and what the threads do with each of its maps. -/
structure TrackerState (C T : Type) where
  tracker : ConnectionTracker
  perIp : Traffic C T
  outbound : Traffic C T

/-- A step of a thread on one of the two maps. -/
inductive TrackerAct (C T : Type)
  | perIp (act : SlotAct SocketAddr C T)
  | outbound (act : SlotAct SocketAddr C T)

namespace TrackerState

variable {C T : Type} [DecidableEq C] [DecidableEq T]

def new : TrackerState C T := ⟨.new, ⟨∅, ∅⟩, ⟨∅, ∅⟩⟩

/-- One step.  `none`: the thread is between two steps of an `untrack`, or the connection is not one
to track or to release. -/
def step (x : TrackerState C T) : TrackerAct C T → Option (TrackerState C T)
  | .perIp (.tryTrack thread conn addr) =>
    if thread ∈ x.perIp.removing.keys ∨ conn ∈ x.perIp.live.keys then none
    else
      let r := x.tracker.tryTrackConnection addr
      some { x with
        tracker := r.2
        perIp.live := if r.1 = true then x.perIp.live.insert conn addr else x.perIp.live }
  | .perIp (.release thread conn) =>
    if thread ∈ x.perIp.removing.keys then none
    else
      (x.perIp.live.lookup conn).map fun addr =>
        let r := x.tracker.untrackConnectionLocked addr
        { x with
          tracker := r.2
          perIp.live := x.perIp.live.erase conn
          perIp.removing :=
            if r.1 = true then x.perIp.removing.insert thread addr else x.perIp.removing }
  | .perIp (.remove thread) =>
    (x.perIp.removing.lookup thread).map fun addr =>
      { x with
        tracker := x.tracker.untrackConnectionRemove addr
        perIp.removing := x.perIp.removing.erase thread }
  | .outbound (.tryTrack thread conn addr) =>
    if thread ∈ x.outbound.removing.keys ∨ conn ∈ x.outbound.live.keys then none
    else
      let r := x.tracker.tryTrackOutboundSubnet addr
      some { x with
        tracker := r.2
        outbound.live := if r.1 = true then x.outbound.live.insert conn addr else x.outbound.live }
  | .outbound (.release thread conn) =>
    if thread ∈ x.outbound.removing.keys then none
    else
      (x.outbound.live.lookup conn).map fun addr =>
        let r := x.tracker.untrackOutboundSubnetLocked addr
        { x with
          tracker := r.2
          outbound.live := x.outbound.live.erase conn
          outbound.removing :=
            if r.1 = true then x.outbound.removing.insert thread addr else x.outbound.removing }
  | .outbound (.remove thread) =>
    (x.outbound.removing.lookup thread).map fun addr =>
      { x with
        tracker := x.tracker.untrackOutboundSubnetRemove addr
        outbound.removing := x.outbound.removing.erase thread }

variable (x : TrackerState C T)

/-- The live connections of an address. -/
def liveFrom (ip : IpAddr) : Nat := Map.count (fun addr => decide (addr.ip = ip)) x.perIp.live

/-- The live outbound connections into a subnet. -/
def liveInto (subnet : UInt32) : Nat :=
  Map.count (fun addr => decide (addr.subnet = subnet)) x.outbound.live

/-- **The condition on a step**: a removal finds no counter above zero. -/
def Undisturbed : TrackerAct C T → Prop
  | .perIp (.remove thread) => ∀ addr, x.perIp.removing.lookup thread = some addr →
      (x.tracker.connectionsPerIp.lookup addr.ip).getD 0 = 0
  | .outbound (.remove thread) => ∀ addr, x.outbound.removing.lookup thread = some addr →
      (x.tracker.outboundPerSubnet.lookup addr.subnet).getD 0 = 0
  | _ => True

/-- **The counters are exact and the caps hold.** -/
structure Exact : Prop where
  perIp : ∀ ip, (x.tracker.connectionsPerIp.lookup ip).getD 0 = x.liveFrom ip ∧
    x.liveFrom ip ≤ maxConnectionsPerIp
  outbound : ∀ subnet, (x.tracker.outboundPerSubnet.lookup subnet).getD 0 = x.liveInto subnet ∧
    x.liveInto subnet ≤ maxOutboundPerSubnet

/-! ## 3. Two machines of slots -/

/-- The map of addresses with its traffic. -/
def ipSlots : Slots SocketAddr IpAddr C T :=
  ⟨x.tracker.connectionsPerIp, x.perIp.live, x.perIp.removing⟩

/-- The map of subnets with its traffic. -/
def subnetSlots : Slots SocketAddr UInt32 C T :=
  ⟨x.tracker.outboundPerSubnet, x.outbound.live, x.outbound.removing⟩

variable {x} {x' : TrackerState C T}

omit [DecidableEq T] in
theorem exact_iff : x.Exact ↔
    x.ipSlots.Sound SocketAddr.ip maxConnectionsPerIp ∧
      x.subnetSlots.Sound SocketAddr.subnet maxOutboundPerSubnet :=
  ⟨fun h => ⟨⟨fun ip => (h.perIp ip).1, fun ip => (h.perIp ip).2⟩,
    ⟨fun subnet => (h.outbound subnet).1, fun subnet => (h.outbound subnet).2⟩⟩,
    fun h => ⟨fun ip => ⟨h.1.counted ip, h.1.capped ip⟩,
      fun subnet => ⟨h.2.counted subnet, h.2.capped subnet⟩⟩⟩

theorem step_slots :
    (∀ act, x.step (.perIp act) = some x' →
      x.ipSlots.step SocketAddr.ip maxConnectionsPerIp act = some x'.ipSlots ∧
        x'.subnetSlots = x.subnetSlots) ∧
    ∀ act, x.step (.outbound act) = some x' →
      x.subnetSlots.step SocketAddr.subnet maxOutboundPerSubnet act = some x'.subnetSlots ∧
        x'.ipSlots = x.ipSlots := by
  constructor
  all_goals
    intro act hstep
    cases act with
    | tryTrack thread conn addr =>
      simp only [step] at hstep
      split at hstep
      · cases hstep
      · rename_i hfree
        cases hstep
        exact ⟨if_neg hfree, rfl⟩
    | release thread conn =>
      simp only [step] at hstep
      split at hstep
      · cases hstep
      · rename_i hfree
        obtain ⟨addr, haddr, rfl⟩ := Option.map_eq_some_iff.mp hstep
        refine ⟨?_, rfl⟩
        exact (if_neg hfree).trans (Option.map_eq_some_iff.mpr ⟨addr, haddr, rfl⟩)
    | remove thread =>
      obtain ⟨addr, haddr, rfl⟩ := Option.map_eq_some_iff.mp hstep
      exact ⟨Option.map_eq_some_iff.mpr ⟨addr, haddr, rfl⟩, rfl⟩

theorem exact_step_iff {act : TrackerAct C T} (h : x.Exact) (hstep : x.step act = some x') :
    x'.Exact ↔ x.Undisturbed act := by
  obtain ⟨hip, hsubnet⟩ := exact_iff.mp h
  rw [exact_iff]
  cases act with
  | perIp act =>
    obtain ⟨hslots, hother⟩ := step_slots.1 _ hstep
    rw [hother, Slots.sound_step_iff (by decide) hip hslots]
    refine (and_iff_left hsubnet).trans ?_
    cases act <;> exact Iff.rfl
  | outbound act =>
    obtain ⟨hslots, hother⟩ := step_slots.2 _ hstep
    rw [hother, Slots.sound_step_iff (by decide) hsubnet hslots]
    refine (and_iff_right hip).trans ?_
    cases act <;> exact Iff.rfl

/-- **In every undisturbed interleaving the counters are exact and the caps hold**, for addresses and
for subnets, also while an `untrack` is in progress; and the next step keeps it so exactly if it is
undisturbed. -/
theorem undisturbed_runs_exact (hrun : Reaches step Undisturbed (new : TrackerState C T) x) :
    ((∀ ip, (x.tracker.connectionsPerIp.lookup ip).getD 0 = x.liveFrom ip ∧
        x.liveFrom ip ≤ maxConnectionsPerIp) ∧
      ∀ subnet, (x.tracker.outboundPerSubnet.lookup subnet).getD 0 = x.liveInto subnet ∧
        x.liveInto subnet ≤ maxOutboundPerSubnet) ∧
    ∀ act x', x.step act = some x' → (x'.Exact ↔ x.Undisturbed act) := by
  have hnew : (new : TrackerState C T).Exact :=
    exact_iff.mpr ⟨Slots.sound_empty _ _, Slots.sound_empty _ _⟩
  have h : x.Exact := hrun.invariant hnew fun _ _ _ hx hclean hstep =>
    (exact_step_iff hx hstep).mpr hclean
  exact ⟨⟨h.perIp, h.outbound⟩, fun act x' hstep => exact_step_iff h hstep⟩

namespace Interleaved

/-- One address, in one subnet. -/
def addr : SocketAddr := ⟨.v4 207 148 6 50, 28080⟩

/-- The steps of the run below are tested, all others are refused. -/
def cleanTest (x : TrackerState Nat Nat) : TrackerAct Nat Nat → Bool
  | .perIp (.tryTrack _ _ _) => true
  | .perIp (.release _ _) => true
  | .perIp (.remove _) => decide ((x.tracker.connectionsPerIp.lookup addr.ip).getD 0 = 0) &&
      decide (∀ thread ∈ x.perIp.removing.keys, x.perIp.removing.lookup thread = some addr)
  | _ => false

theorem undisturbed_of_cleanTest (x : TrackerState Nat Nat) (act : TrackerAct Nat Nat)
    (h : cleanTest x act = true) : x.Undisturbed act := by
  cases act with
  | outbound act => cases h
  | perIp act =>
    cases act with
    | tryTrack thread conn a => trivial
    | release thread conn => trivial
    | remove thread =>
      obtain ⟨hzero, hall⟩ := Bool.and_eq_true_iff.mp h
      intro a ha
      have haddr := of_decide_eq_true hall thread (Map.mem_keys_iff.mpr ⟨a, ha⟩)
      cases ha.symm.trans haddr
      exact of_decide_eq_true hzero

/-- Connection 1 comes and goes; thread 1 removes the entry before the next two come. -/
def acts : List (TrackerAct Nat Nat) :=
  [.perIp (.tryTrack 1 1 addr), .perIp (.release 1 1), .perIp (.remove 1),
    .perIp (.tryTrack 2 2 addr), .perIp (.tryTrack 3 3 addr), .perIp (.tryTrack 1 4 addr)]

/-- Two connections are live, the third is refused. -/
theorem cap_kept : ∃ x : TrackerState Nat Nat, Reaches step Undisturbed new x ∧
    x.liveFrom addr.ip = 2 ∧ (x.tracker.connectionsPerIp.lookup addr.ip).getD 0 = 2 := by
  have hrun : (Lib.run step cleanTest (new : TrackerState Nat Nat) acts).any
      (fun x => decide (x.liveFrom addr.ip = 2)) = true := by
    decide +kernel
  obtain ⟨x, hreach, hends⟩ := Reaches.exists_of_run undisturbed_of_cleanTest hrun
  have hlive := of_decide_eq_true hends
  exact ⟨x, hreach, hlive, (((undisturbed_runs_exact hreach).1.1 addr.ip).1).trans hlive⟩

/-- **Three connections where two are allowed.**  Connection 2 is tracked between the two steps of
the `untrack` of connection 1, whose second step removes the counter with it. -/
theorem cap_exceeded :
    (Lib.run step (fun _ _ => true) (new : TrackerState Nat Nat)
        [.perIp (.tryTrack 1 1 addr), .perIp (.release 1 1), .perIp (.tryTrack 2 2 addr),
          .perIp (.remove 1)]).any
      (fun x => decide (x.perIp.removing.keys = ∅ ∧ x.liveFrom addr.ip = 1 ∧
        (x.tracker.connectionsPerIp.lookup addr.ip).getD 0 = 0)) = true ∧
    (Lib.run step (fun _ _ => true) (new : TrackerState Nat Nat)
        [.perIp (.tryTrack 1 1 addr), .perIp (.release 1 1), .perIp (.tryTrack 2 2 addr),
          .perIp (.remove 1), .perIp (.tryTrack 1 3 addr), .perIp (.tryTrack 2 4 addr)]).any
      (fun x => decide (maxConnectionsPerIp < x.liveFrom addr.ip)) = true ∧
    (Lib.run step (fun _ _ => true) (new : TrackerState Nat Nat)
        [.outbound (.tryTrack 1 1 addr), .outbound (.release 1 1), .outbound (.tryTrack 2 2 addr),
          .outbound (.remove 1), .outbound (.tryTrack 1 3 addr),
          .outbound (.tryTrack 2 4 addr)]).any
      (fun x => decide (maxOutboundPerSubnet < x.liveInto addr.subnet)) = true := by
  decide +kernel

end Interleaved

end TrackerState

end Coincync
