import Noxara.BitPrefixes
import Noxara.WebhookSsrf

/-! The ranges of addresses that no webhook may reach, and the addresses of the one family that stand for one of
the other. -/
namespace Noxara.Webhooks

open BitPrefixes (AgreeOn agree_append agree_of_width_le agree_zero mask_eq_iff)

def Ipv4Addr.bits (ip : Ipv4Addr) : BitVec 32 := ip.a ++ ip.b ++ ip.c ++ ip.d

def Ipv6Addr.bits (ip : Ipv6Addr) : BitVec 128 :=
  ip.s0 ++ ip.s1 ++ ip.s2 ++ ip.s3 ++ ip.s4 ++ ip.s5 ++ ip.s6 ++ ip.s7

inductive Reach
  | privateUse | loopback | linkLocal | carrierNat | multicast | unspecified
  deriving DecidableEq

/-- The ranges of a kind: a first address with the number of bits that count. -/
def ranges4 : Reach → List (Ipv4Addr × ℕ)
  | .privateUse => [(⟨10, 0, 0, 0⟩, 8), (⟨172, 16, 0, 0⟩, 12), (⟨192, 168, 0, 0⟩, 16)]
  | .loopback => [(⟨127, 0, 0, 0⟩, 8)]
  | .linkLocal => [(⟨169, 254, 0, 0⟩, 16)]
  | .carrierNat => [(⟨100, 64, 0, 0⟩, 10)]
  | .multicast => [(⟨224, 0, 0, 0⟩, 4)]
  | .unspecified => [(⟨0, 0, 0, 0⟩, 32)]

/-- The kinds of the longer addresses; there is no carrier-grade NAT among them. -/
def ranges6 : Reach → List (Ipv6Addr × ℕ)
  | .privateUse => [(⟨0xfc00, 0, 0, 0, 0, 0, 0, 0⟩, 7)]
  | .loopback => [(⟨0, 0, 0, 0, 0, 0, 0, 1⟩, 128)]
  | .linkLocal => [(⟨0xfe80, 0, 0, 0, 0, 0, 0, 0⟩, 10)]
  | .carrierNat => []
  | .multicast => [(⟨0xff00, 0, 0, 0, 0, 0, 0, 0⟩, 8)]
  | .unspecified => [(⟨0, 0, 0, 0, 0, 0, 0, 0⟩, 128)]

/-- The address is in a range of the kind. -/
def IpAddr.InRange (ip : IpAddr) (reach : Reach) : Prop :=
  match ip with
  | v4 ip => ∃ r ∈ ranges4 reach, AgreeOn r.2 ip.bits r.1.bits
  | v6 ip => ∃ r ∈ ranges6 reach, AgreeOn r.2 ip.bits r.1.bits

theorem agree_octets (n : ℕ) (ip net : Ipv4Addr) : AgreeOn n ip.bits net.bits ↔
    ((AgreeOn n ip.a net.a ∧ AgreeOn (n - 8) ip.b net.b) ∧ AgreeOn (n - 16) ip.c net.c) ∧
      AgreeOn (n - 24) ip.d net.d := by
  unfold Ipv4Addr.bits
  rw [agree_append, agree_append, agree_append]

theorem agree_first {n : ℕ} (hn : n ≤ 16) (ip net : Ipv6Addr) :
    AgreeOn n ip.bits net.bits ↔ AgreeOn n ip.s0 net.s0 := by
  unfold Ipv6Addr.bits
  have hzero {x y : BitVec 16} {k : ℕ} (hk : 16 ≤ k) : AgreeOn (n - k) x y := by
    rw [Nat.sub_eq_zero_of_le (hn.trans hk)]
    exact agree_zero x y
  rw [agree_append, agree_append, agree_append, agree_append, agree_append, agree_append, agree_append]
  simp (disch := decide) only [hzero, and_true]

theorem agree_all {ip net : Ipv6Addr} (h : AgreeOn 128 ip.bits net.bits) : ip = net := by
  unfold Ipv6Addr.bits at h
  rw [agree_append, agree_append, agree_append, agree_append, agree_append, agree_append, agree_append] at h
  have hwhole {x y : BitVec 16} {n : ℕ} (hn : 16 ≤ n) (h : AgreeOn n x y) : x = y := (agree_of_width_le hn).mp h
  obtain ⟨⟨⟨⟨⟨⟨⟨h0, h1⟩, h2⟩, h3⟩, h4⟩, h5⟩, h6⟩, h7⟩ := h
  exact Ipv6Addr.mk.injEq .. |>.mpr ⟨hwhole (by decide) h0, hwhole (by decide) h1, hwhole (by decide) h2,
    hwhole (by decide) h3, hwhole (by decide) h4, hwhole (by decide) h5, hwhole (by decide) h6, hwhole (by decide) h7⟩

theorem octet_172_16 {b : BitVec 8} (h : AgreeOn 4 b 16) : 16 ≤ b.toNat ∧ b.toNat ≤ 31 := by
  revert b
  decide +kernel

theorem octet_224 {a : BitVec 8} (h : AgreeOn 4 a 224) : 224 ≤ a.toNat ∧ a.toNat ≤ 239 := by
  revert a
  decide +kernel

theorem inRange4_blocked {ip : Ipv4Addr} {reach : Reach} (h : (IpAddr.v4 ip).InRange reach) :
    isBlockedV4 ip = true := by
  obtain ⟨r, hr, hagree⟩ := h
  obtain ⟨⟨⟨ha, hb⟩, hc⟩, hd⟩ := (agree_octets _ _ _).mp hagree
  have hwhole {x y : BitVec 8} {n : ℕ} (hn : 8 ≤ n) (h : AgreeOn n x y) : x = y := (agree_of_width_le hn).mp h
  cases reach with
  | privateUse =>
    simp only [ranges4, List.mem_cons, List.not_mem_nil, or_false] at hr
    have hprivate : ip.isPrivate = true := by
      rcases hr with rfl | rfl | rfl
      · exact decide_eq_true (.inl (hwhole (by decide) ha))
      · exact decide_eq_true (.inr (.inl ⟨hwhole (by decide) ha, octet_172_16 hb⟩))
      · exact decide_eq_true (.inr (.inr ⟨hwhole (by decide) ha, hwhole (by decide) hb⟩))
    simp [isBlockedV4, hprivate]
  | loopback =>
    cases List.mem_singleton.mp hr
    have hloopback : ip.isLoopback = true := decide_eq_true (hwhole (by decide) ha)
    simp [isBlockedV4, hloopback]
  | linkLocal =>
    cases List.mem_singleton.mp hr
    have hlocal : ip.isLinkLocal = true := decide_eq_true ⟨hwhole (by decide) ha, hwhole (by decide) hb⟩
    simp [isBlockedV4, hlocal]
  | carrierNat =>
    cases List.mem_singleton.mp hr
    have hcarrier : ip.b &&& 0xc0#8 = 64#8 := (mask_eq_iff (w := 8) (by decide) (by decide)).mpr hb
    have hfirst : ip.a = 100 := hwhole (by decide) ha
    simp [isBlockedV4, hcarrier, hfirst]
  | multicast =>
    cases List.mem_singleton.mp hr
    have hmulticast : ip.isMulticast = true := decide_eq_true (octet_224 ha)
    simp [isBlockedV4, hmulticast]
  | unspecified =>
    cases List.mem_singleton.mp hr
    have hfirst : ip.a = 0 := hwhole (by decide) ha
    simp [isBlockedV4, hfirst]

theorem inRange6_blocked {ip : Ipv6Addr} {reach : Reach} (h : (IpAddr.v6 ip).InRange reach) :
    isBlockedV6 ip = true := by
  obtain ⟨r, hr, hagree⟩ := h
  unfold isBlockedV6
  cases reach with
  | privateUse =>
    cases List.mem_singleton.mp hr
    rw [agree_first (by decide)] at hagree
    have hlocal : ip.s0 &&& 0xfe00#16 = 0xfc00#16 := (mask_eq_iff (w := 16) (by decide) (by decide)).mpr hagree
    simp [hlocal]
  | loopback =>
    cases List.mem_singleton.mp hr
    have hloopback : ip.isLoopback = true := decide_eq_true (agree_all hagree)
    simp [hloopback]
  | linkLocal =>
    cases List.mem_singleton.mp hr
    rw [agree_first (by decide)] at hagree
    have hlocal : ip.s0 &&& 0xffc0#16 = 0xfe80#16 := (mask_eq_iff (w := 16) (by decide) (by decide)).mpr hagree
    simp [hlocal]
  | carrierNat => cases hr
  | multicast =>
    cases List.mem_singleton.mp hr
    rw [agree_first (by decide)] at hagree
    have hmulticast : ip.isMulticast = true :=
      decide_eq_true ((mask_eq_iff (w := 16) (by decide) (by decide)).mpr hagree)
    simp [hmulticast]
  | unspecified =>
    cases List.mem_singleton.mp hr
    have hunspecified : ip.isUnspecified = true := decide_eq_true (agree_all hagree)
    simp [hunspecified]

inductive Embedding
  | mapped | compatible | nat64 | sixToFour
  deriving DecidableEq

/-- The longer address stands for the shorter one: in its last 32 bits, or those after the first 16. -/
def Embedding.Embeds (e : Embedding) (ip : Ipv6Addr) (v4 : Ipv4Addr) : Prop :=
  match e with
  -- ::ffff:0:0/96
  | mapped => ip = ⟨0, 0, 0, 0, 0, 0xffff, v4.a ++ v4.b, v4.c ++ v4.d⟩
  -- ::/96
  | compatible => ip = ⟨0, 0, 0, 0, 0, 0, v4.a ++ v4.b, v4.c ++ v4.d⟩
  -- 64:ff9b::/96
  | nat64 => ip = ⟨0x64, 0xff9b, 0, 0, 0, 0, v4.a ++ v4.b, v4.c ++ v4.d⟩
  -- 2002::/16
  | sixToFour => ip.s0 = 0x2002 ∧ ip.s1 = v4.a ++ v4.b ∧ ip.s2 = v4.c ++ v4.d

theorem high_octet (a b : BitVec 8) : ((a ++ b : BitVec 16) >>> 8).setWidth 8 = a := by
  apply BitVec.eq_of_getLsbD_eq
  intro i hi
  have hbit : (a ++ b : BitVec 16).getLsbD (8 + i) = a.getLsbD i := by
    refine (BitVec.getLsbD_append (x := a) (y := b)).trans ?_
    rw [if_neg (by omega), Nat.add_sub_cancel_left]
  rw [BitVec.getLsbD_setWidth, BitVec.getLsbD_ushiftRight, hbit, decide_eq_true hi, Bool.true_and]

theorem low_octet (a b : BitVec 8) : (a ++ b : BitVec 16).setWidth 8 = b := by
  apply BitVec.eq_of_getLsbD_eq
  intro i hi
  have hbit : (a ++ b : BitVec 16).getLsbD i = b.getLsbD i :=
    (BitVec.getLsbD_append (x := a) (y := b)).trans (if_pos hi)
  rw [BitVec.getLsbD_setWidth, hbit, decide_eq_true hi, Bool.true_and]

theorem low_embedded (s0 s1 s2 s3 s4 s5 : BitVec 16) (v4 : Ipv4Addr) :
    (Ipv6Addr.mk s0 s1 s2 s3 s4 s5 (v4.a ++ v4.b) (v4.c ++ v4.d)).low = v4 := by
  simp only [Ipv6Addr.low, high_octet, low_octet]

theorem isBlockedV6_of_first {ip : Ipv6Addr} (h : ip.s0 = 0x64 ∨ ip.s0 = 0x2002) : isBlockedV6 ip = false := by
  have hne : ip.s0 ≠ 0 := by
    rcases h with h | h <;> rw [h] <;> decide
  have hmapped : ip.toIpv4Mapped = none := if_neg fun hall => hne hall.1
  have hto : ip.toIpv4 = none := if_neg fun hall => hne hall.1
  have hloopback : ip.isLoopback = false := by
    refine decide_eq_false fun heq => hne ?_
    rw [heq]
  have hunspecified : ip.isUnspecified = false := by
    refine decide_eq_false fun heq => hne ?_
    rw [heq]
  have hmulticast : ip.isMulticast = false := by
    unfold Ipv6Addr.isMulticast
    rcases h with h | h <;> rw [h] <;> decide
  unfold isBlockedV6
  rw [hloopback, hunspecified, hmulticast, hmapped, hto]
  rcases h with h | h <;> rw [h] <;> rfl

/-- The classifier finds the blocked address in the first two forms, and in no other. -/
theorem isBlockedV6_embeds_iff {e : Embedding} {ip : Ipv6Addr} {v4 : Ipv4Addr} (hembeds : e.Embeds ip v4)
    (hblocked : isBlockedV4 v4 = true) : isBlockedV6 ip = true ↔ e = .mapped ∨ e = .compatible := by
  cases e with
  | mapped =>
    refine iff_of_true ?_ (.inl rfl)
    have hmapped : ip.toIpv4Mapped = some v4 := by
      cases hembeds
      exact (if_pos ⟨rfl, rfl, rfl, rfl, rfl, rfl⟩).trans (congrArg some (low_embedded ..))
    simp [isBlockedV6, hmapped, hblocked]
  | compatible =>
    refine iff_of_true ?_ (.inr rfl)
    have hzero : ip.s0 = 0 ∧ ip.s1 = 0 ∧ ip.s2 = 0 ∧ ip.s3 = 0 ∧ ip.s4 = 0 ∧ ip.s5 = 0 := by
      cases hembeds
      exact ⟨rfl, rfl, rfl, rfl, rfl, rfl⟩
    obtain ⟨h0, h1, h2, h3, h4, h5⟩ := hzero
    have hto : ip.toIpv4 = some v4 := by
      cases hembeds
      exact (if_pos ⟨rfl, rfl, rfl, rfl, rfl, .inl rfl⟩).trans (congrArg some (low_embedded ..))
    have hmapped : ip.toIpv4Mapped = none := by
      refine if_neg fun hall => ?_
      have hboth := h5.symm.trans hall.2.2.2.2.2
      exact absurd hboth (by decide)
    simp [isBlockedV6, hmapped, hto, hblocked, h0, h1, h2, h3, h4, h5]
  | nat64 =>
    refine iff_of_false ?_ (by decide)
    cases hembeds
    rw [isBlockedV6_of_first (.inl rfl)]
    exact Bool.false_ne_true
  | sixToFour =>
    refine iff_of_false ?_ (by decide)
    rw [isBlockedV6_of_first (.inr hembeds.1)]
    exact Bool.false_ne_true

/-- Of the addresses that embed a blocked one exactly those that are mapped or compatible are blocked too; and
whatever is in a range is blocked. -/
theorem embedded_blocked_iff (e : Embedding) (v6 : Ipv6Addr) (v4 : Ipv4Addr) (ip : IpAddr) (reach : Reach) :
    (isBlockedIp (.v4 v4) = true → e.Embeds v6 v4 →
      (isBlockedIp (.v6 v6) = true ↔ e = .mapped ∨ e = .compatible)) ∧
    (ip.InRange reach → isBlockedIp ip = true) := by
  refine ⟨fun hblocked hembeds => isBlockedV6_embeds_iff hembeds hblocked, fun hrange => ?_⟩
  cases ip with
  | v4 ip => exact inRange4_blocked hrange
  | v6 ip => exact inRange6_blocked hrange

theorem embedded_blocked_iff_mapped : isBlockedIp (.v6 ⟨0, 0, 0, 0, 0, 0xffff, 0x0a00, 0x0001⟩) = true :=
  ((embedded_blocked_iff .mapped _ ⟨10, 0, 0, 1⟩ (.v4 ⟨10, 0, 0, 1⟩) .privateUse).1 (by decide) rfl).mpr
    (.inl rfl)

/-- An address of a private network, as a gateway between the families is told of it. -/
theorem embedded_not_blocked : ¬∀ (e : Embedding) (v6 : Ipv6Addr) (v4 : Ipv4Addr),
    isBlockedIp (.v4 v4) = true → e.Embeds v6 v4 → isBlockedIp (.v6 v6) = true := by
  intro h
  have hblocked := h .nat64 ⟨0x64, 0xff9b, 0, 0, 0, 0, 0x0a00, 0x0001⟩ ⟨10, 0, 0, 1⟩ (by decide) rfl
  revert hblocked
  decide

end Noxara.Webhooks
