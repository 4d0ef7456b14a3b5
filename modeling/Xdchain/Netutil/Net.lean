import Mathlib.Data.UInt
import Mathlib.Logic.Function.Basic

/-! # Local networks and distinct subnet sets

`p2p/netutil/net.go`, with the parts of Go's `net.IP` it calls. An IP is its
bytes: four for IPv4, sixteen for IPv6, an IPv4 address possibly in its
IPv4-mapped sixteen-byte form. `IsLAN` is the loopback and private-use test;
a `DistinctNetSet` counts the addresses it holds per subnet prefix and
refuses one more than `Limit` in a subnet.

An `Add` that fails changes nothing, and a failure stays a failure in any set
that counts at least as much in every subnet. -/

namespace Xdchain.Netutil

abbrev IP := List UInt8

/-- net.IP.To4: the four bytes of an IPv4 address, in either form. -/
def To4 (ip : IP) : Option IP :=
  if ip.length = 4 then some ip
  else if ip.length = 16 ∧ ip.take 10 = List.replicate 10 0 ∧ ip[10]? = some 0xff ∧
      ip[11]? = some 0xff then
    some (ip.drop 12)
  else none

/-- The twelve bytes that put an IPv4 address into IPv6 form. -/
def v4InV6Prefix : IP := List.replicate 10 0 ++ [0xff, 0xff]

/-- net.IPv6loopback, `::1`. -/
def IPv6loopback : IP := List.replicate 15 0 ++ [1]

/-- net.IP.Equal: the same address, an IPv4 one in either form. -/
def Equal (ip x : IP) : Bool :=
  if ip.length = x.length then ip == x
  else if ip.length = 4 ∧ x.length = 16 then x.take 12 == v4InV6Prefix && ip == x.drop 12
  else if ip.length = 16 ∧ x.length = 4 then ip.take 12 == v4InV6Prefix && ip.drop 12 == x
  else false

def IsLoopback (ip : IP) : Bool :=
  match To4 ip with
  | some ip4 => ip4.head? == some 127
  | none => Equal ip IPv6loopback

/-- net.IPNet, as net.ParseCIDR makes it: number and mask of one length. -/
structure IPNet where
  IP : IP
  Mask : List UInt8

/-- net.CIDRMask: ones leading one bits in bits / 8 bytes. -/
def CIDRMask (ones bits : Nat) : List UInt8 :=
  (List.range (bits / 8)).map fun i =>
    if ones ≥ 8 * i + 8 then 0xff else ~~~((0xff : UInt8) >>> (ones - 8 * i).toUInt8)

/-- net.IPNet.Contains, for a number and mask of one length. -/
def IPNet.Contains (n : IPNet) (ip : Netutil.IP) : Bool :=
  let ip := (To4 ip).getD ip
  ip.length == n.IP.length &&
    (List.zip (List.zip n.IP n.Mask) ip).all fun ((nn, m), b) => nn &&& m == b &&& m

def Netlist.Contains (l : List IPNet) (ip : IP) : Bool := l.any fun net => net.Contains ip

/-- lan4: 0.0.0.0/8, 10.0.0.0/8, 172.16.0.0/12, 192.168.0.0/16. -/
def lan4 : List IPNet :=
  [⟨[0, 0, 0, 0], CIDRMask 8 32⟩, ⟨[10, 0, 0, 0], CIDRMask 8 32⟩,
   ⟨[172, 16, 0, 0], CIDRMask 12 32⟩, ⟨[192, 168, 0, 0], CIDRMask 16 32⟩]

/-- lan6: fe80::/10 and fc00::/7. -/
def lan6 : List IPNet :=
  [⟨[0xfe, 0x80] ++ List.replicate 14 0, CIDRMask 10 128⟩,
   ⟨[0xfc] ++ List.replicate 15 0, CIDRMask 7 128⟩]

/-- IsLAN: a loopback or private-use address. -/
def IsLAN (ip : IP) : Bool :=
  IsLoopback ip ||
    match To4 ip with
    | some v4 => Netlist.Contains lan4 v4
    | none => Netlist.Contains lan6 ip

/-- DistinctNetSet: the count of addresses per subnet key. Go keeps a map and
deletes a key whose count drops to zero; absent keys count zero here. -/
structure DistinctNetSet where
  Subnet : Nat
  Limit : Nat
  members : List UInt8 → Nat

namespace DistinctNetSet

/-- The subnet key: '4' or '6', then the address cut to Subnet bits. -/
def key (s : DistinctNetSet) (ip : IP) : List UInt8 :=
  let (typ, ip) : UInt8 × IP :=
    match To4 ip with
    | some ip4 => (52, ip4)
    | none => (54, ip)
  let bits := min s.Subnet (ip.length * 8)
  let nb := bits / 8
  let mask : UInt8 := ~~~((0xff : UInt8) >>> (bits % 8).toUInt8)
  typ :: ip.take nb ++ (if mask ≠ 0 then (ip[nb]?.map (· &&& mask)).toList else [])

/-- Add: count ip in its subnet unless the subnet is full. -/
def Add (s : DistinctNetSet) (ip : IP) : Bool × DistinctNetSet :=
  let k := s.key ip
  if s.members k < s.Limit then (true, { s with members := Function.update s.members k (s.members k + 1) })
  else (false, s)

/-- Remove: uncount ip; nothing when its subnet holds none. -/
def Remove (s : DistinctNetSet) (ip : IP) : DistinctNetSet :=
  let k := s.key ip
  if s.members k = 0 then s
  else { s with members := Function.update s.members k (s.members k - 1) }

variable {s t : DistinctNetSet} {ip : IP}

@[simp] theorem Add_Subnet : (s.Add ip).2.Subnet = s.Subnet := by
  unfold Add; dsimp only; split_ifs <;> rfl

@[simp] theorem Add_Limit : (s.Add ip).2.Limit = s.Limit := by
  unfold Add; dsimp only; split_ifs <;> rfl

@[simp] theorem Remove_Subnet : (s.Remove ip).Subnet = s.Subnet := by
  unfold Remove; dsimp only; split_ifs <;> rfl

@[simp] theorem Remove_Limit : (s.Remove ip).Limit = s.Limit := by
  unfold Remove; dsimp only; split_ifs <;> rfl

theorem key_eq_of_Subnet (h : t.Subnet = s.Subnet) : t.key = s.key := by
  funext ip
  simp [key, h]

@[simp] theorem Remove_key : (s.Remove ip).key = s.key := key_eq_of_Subnet Remove_Subnet

/-- Remove takes one address off its subnet's count, none below zero. -/
theorem Remove_members_key : (s.Remove ip).members (s.key ip) = s.members (s.key ip) - 1 := by
  unfold Remove
  dsimp only
  split_ifs with h
  · rw [h]
  · simp

/-! ## Runs of Add and Remove -/

/-- No subnet counts more than the limit. -/
def Bounded (s : DistinctNetSet) : Prop := ∀ k, s.members k ≤ s.Limit

theorem Bounded.add (h : s.Bounded) : (s.Add ip).2.Bounded := by
  intro k
  unfold Add
  dsimp only
  split_ifs with hlt
  · simp only [Function.update_apply]
    split_ifs with hk
    · omega
    · exact h k
  · exact h k

theorem Bounded.remove (h : s.Bounded) : (s.Remove ip).Bounded := by
  intro k
  unfold Remove
  dsimp only
  split_ifs
  · exact h k
  · simp only [Function.update_apply]
    split_ifs with hk
    · have := h (s.key ip)
      omega
    · exact h k

/-- A run of `Add` (`true`) and `Remove` (`false`) calls. -/
def run : List (Bool × IP) → DistinctNetSet → DistinctNetSet
  | [], s => s
  | (true, ip) :: ops, s => run ops (s.Add ip).2
  | (false, ip) :: ops, s => run ops (s.Remove ip)

/-- A bounded set stays bounded over every run: by induction on the run,
each call keeping the bound. -/
theorem Bounded.run : ∀ (ops : List (Bool × IP)) {s : DistinctNetSet}, s.Bounded → (run ops s).Bounded
  | [], _, h => h
  | (true, _) :: ops, _, h => Bounded.run ops h.add
  | (false, _) :: ops, _, h => Bounded.run ops h.remove

/-- **No subnet ever counts more than the limit**: from an empty set, over
every run of `Add` and `Remove`. -/
theorem run_bounded (subnet limit : Nat) (ops : List (Bool × IP)) :
    (run ops { Subnet := subnet, Limit := limit, members := fun _ => 0 }).Bounded :=
  Bounded.run ops fun _ => Nat.zero_le _

end DistinctNetSet

end Xdchain.Netutil
