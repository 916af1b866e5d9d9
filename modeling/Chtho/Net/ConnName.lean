import Chtho.Net.TcpServer

/-! The names of connections.

A client and a server both name a connection after an address and its number, and both format
this into an array. That of a server has room for the longest address and number. That of a client
has not: `snprintf` cuts the text off where the array ends, and the number, which comes last, goes
first. `client_differ_iff` says how much of it is left. -/
namespace Chtho.Net
open Lib

/-- `sa_family`. -/
inductive Family where
  | inet
  | inet6
  | other
deriving DecidableEq, Repr

/-- An address, with the text that `inet_ntop` writes for it. -/
structure InetAddr where
  family : Family
  text : Bytes
  port : UInt16
  text_le : text.length ≤ 39

namespace InetAddr

variable (a : InetAddr)

/-- The string in an array of `sz` bytes that was empty. -/
def toIp (sz : Nat) : Bytes :=
  match a.family with
  | .inet | .inet6 => if a.text.length < sz then a.text else []
  | .other => []

def toIpPort (sz : Nat) : Option Bytes :=
  match a.family with
  | .inet6 => do
    let buf := chr '[' :: a.toIp (sz - 1)
    assert (sz > buf.length)
    some (buf ++ snprintf (sz - buf.length) (ascii "]:" ++ decimal a.port.toNat))
  | .inet | .other => do
    let buf := a.toIp sz
    assert (sz > buf.length)
    some (buf ++ snprintf (sz - buf.length) (ascii ":" ++ decimal a.port.toNat))

def ipPort : Option Bytes := a.toIpPort 64

/-- The address and its port, however long. -/
def hostPort : Bytes :=
  match a.family with
  | .inet6 => ascii "[" ++ a.text ++ ascii "]:" ++ decimalDigits a.port.toNat
  | .inet => a.text ++ ascii ":" ++ decimalDigits a.port.toNat
  | .other => ascii ":" ++ decimalDigits a.port.toNat

end InetAddr

open InetAddr

/-- The name `TcpClient::newConn` gives to a connection. -/
def TcpClient.connName (name : Bytes) (peer : InetAddr) (connID : Nat) : Option Bytes := do
  let ipPort ← peer.ipPort
  some (name ++ snprintf 32 (ascii ":" ++ ipPort ++ ascii "#" ++ decimal connID))

/-- The name `TcpServer::newConn` gives to a connection. -/
def TcpServer.connName (name : Bytes) (listenAddr : InetAddr) (connID : Nat) : Option Bytes := do
  let ipPort ← listenAddr.ipPort
  some (name ++ snprintf 64 (ascii "-" ++ ipPort ++ ascii "#" ++ decimal connID))

/-- Both connections get a name, and not the same. -/
def Differ (x y : Option Bytes) : Prop := ∃ n m, x = some n ∧ y = some m ∧ n ≠ m

/-! ### Addresses -/

namespace InetAddr
variable (a : InetAddr)

theorem length_port_le : (decimalDigits a.port.toNat).length ≤ 5 :=
  (length_decimalDigits_le (by decide)).mpr (Nat.lt_trans a.port.toNat_lt (by decide))

/-- An address with its port needs at most `[`, 39 characters, `]:` and 5 digits. -/
theorem length_hostPort_le : a.hostPort.length ≤ 47 := by
  have htext := a.text_le
  have hport := a.length_port_le
  have hopen : (ascii "[").length = 1 := rfl
  have hclose : (ascii "]:").length = 2 := rfl
  have hcolon : (ascii ":").length = 1 := rfl
  unfold hostPort
  split
  all_goals
    simp only [List.length_append, hopen, hclose, hcolon]
    omega

/-- The array has room for every address. -/
theorem ipPort_eq : a.ipPort = some a.hostPort := by
  have htext := a.text_le
  have hport := a.length_port_le
  have hclose : (ascii "]:").length = 2 := rfl
  have hcolon : (ascii ":").length = 1 := rfl
  unfold ipPort toIpPort hostPort toIp
  cases a.family with
  | inet6 =>
    have hip : a.text.length < 64 - 1 := by omega
    have hbuf : (chr '[' :: a.text).length < 64 := by
      rw [List.length_cons]
      omega
    simp only [if_pos hip, assert_bind, if_pos hbuf, decimal_natCast]
    rw [snprintf_eq (by rw [List.length_append, hclose, List.length_cons]; omega), ← List.append_assoc]
    rfl
  | inet =>
    have hip : a.text.length < 64 := by omega
    simp only [if_pos hip, assert_bind, decimal_natCast]
    rw [snprintf_eq (by rw [List.length_append, hcolon]; omega), ← List.append_assoc]
  | other =>
    simp only [assert_bind, decimal_natCast]
    rw [snprintf_eq (by rw [List.length_append, hcolon, List.length_nil]; omega)]
    rfl

end InetAddr

/-! ### Names -/

variable {i j : Nat}

/-- What of a number is in a text that is cut off. -/
theorem take_number (size : Nat) (text : Bytes) (n : Nat) :
    snprintf size (text ++ decimal n) = text.take (size - 1) ++ (decimalDigits n).take (size - 1 - text.length) := by
  rw [snprintf, decimal_natCast, List.take_append]

theorem differ_some {n m : Bytes} : Differ (some n) (some m) ↔ n ≠ m := by
  constructor
  case mp =>
    rintro ⟨_, _, ⟨⟩, ⟨⟩, hne⟩
    exact hne
  case mpr => exact fun hne => ⟨n, m, rfl, rfl, hne⟩

/-- Two names of a client differ exactly if the digits differ that the array has room for. -/
theorem client_differ_iff (name : Bytes) (peer : InetAddr) (i j : Nat) :
    Differ (TcpClient.connName name peer i) (TcpClient.connName name peer j) ↔
      (decimalDigits i).take (29 - peer.hostPort.length) ≠ (decimalDigits j).take (29 - peer.hostPort.length) := by
  have hlength : (ascii ":" ++ peer.hostPort ++ ascii "#").length = peer.hostPort.length + 2 := by
    simp [ascii]
  have hroom : 32 - 1 - (peer.hostPort.length + 2) = 29 - peer.hostPort.length := by omega
  have hname (n : Nat) : TcpClient.connName name peer n =
      some (name ++ snprintf 32 (ascii ":" ++ peer.hostPort ++ ascii "#" ++ decimal n)) := by
    rw [TcpClient.connName, ipPort_eq]
    rfl
  rw [hname, hname, differ_some, take_number, take_number, hlength, hroom, ne_eq, List.append_cancel_left_eq,
    List.append_cancel_left_eq]

/-- The names that a server keeps its connections by are those of its configuration. -/
theorem server_connName_eq (cfg : TcpServer.Config) {listenAddr : InetAddr} (haddr : cfg.ipPort = listenAddr.hostPort)
    (n : Nat) : TcpServer.connName cfg.name listenAddr n = some (cfg.connName n) := by
  rw [TcpServer.connName, ipPort_eq, TcpServer.Config.connName, haddr]
  rfl

/-- Two names of a server differ. -/
theorem server_differ (name : Bytes) (listenAddr : InetAddr) (hi : i < 2 ^ 31) (hj : j < 2 ^ 31) (hne : i ≠ j) :
    Differ (TcpServer.connName name listenAddr i) (TcpServer.connName name listenAddr j) := by
  let cfg : TcpServer.Config := ⟨name, listenAddr.hostPort, 0, false, listenAddr.length_hostPort_le⟩
  have hname := server_connName_eq cfg (rfl : cfg.ipPort = listenAddr.hostPort)
  rw [show name = cfg.name from rfl, hname, hname, differ_some]
  exact fun heq => hne (cfg.connName_injective hi hj heq)

/-- **Which connections have names of their own.** Two connections of a client have, if the first
digits of their numbers differ, as many as fit behind the address; two of a server always have. -/
theorem connNames_differ_iff (name serverName : Bytes) (peer listenAddr : InetAddr) {i j : Nat}
    (hi : 1 ≤ i ∧ i < 2 ^ 31) (hj : 1 ≤ j ∧ j < 2 ^ 31) (hne : i ≠ j) :
    (Differ (TcpClient.connName name peer i) (TcpClient.connName name peer j) ↔
      (decimalDigits i).take (29 - peer.hostPort.length) ≠ (decimalDigits j).take (29 - peer.hostPort.length)) ∧
    Differ (TcpServer.connName serverName listenAddr i) (TcpServer.connName serverName listenAddr j) :=
  ⟨client_differ_iff name peer i j, server_differ serverName listenAddr hi.2 hj.2 hne⟩

/-- A server on 10.0.0.1 whose client connects twice. -/
theorem first_two_differ :
    let addr : InetAddr := ⟨.inet, ascii "10.0.0.1", 80, by decide⟩
    Differ (TcpClient.connName (ascii "client") addr 1) (TcpClient.connName (ascii "client") addr 2) ∧
      Differ (TcpServer.connName (ascii "server") addr 1) (TcpServer.connName (ascii "server") addr 2) := by
  have h := connNames_differ_iff (ascii "client") (ascii "server") ⟨.inet, ascii "10.0.0.1", 80, by decide⟩
    ⟨.inet, ascii "10.0.0.1", 80, by decide⟩ (i := 1) (j := 2) (by decide) (by decide) (by decide)
  exact ⟨h.1.mpr (by decide), h.2⟩

/-- Of a long IPv6 address not even the number sign fits; behind the longest IPv4 address there is room
for eight digits. -/
theorem client_names_collide :
    let peer6 : InetAddr := ⟨.inet6, ascii "2001:db8:85a3:1111:2222:8a2e:370:7334", 443, by decide⟩
    let peer4 : InetAddr := ⟨.inet, ascii "255.255.255.255", 65535, by decide⟩
    TcpClient.connName (ascii "client") peer6 1 = some (ascii "client:[2001:db8:85a3:1111:2222:8a2e:") ∧
      TcpClient.connName (ascii "client") peer6 2 = some (ascii "client:[2001:db8:85a3:1111:2222:8a2e:") ∧
      TcpClient.connName (ascii "client") peer4 100000000 = some (ascii "client:255.255.255.255:65535#10000000") ∧
      TcpClient.connName (ascii "client") peer4 100000001 = some (ascii "client:255.255.255.255:65535#10000000") := by
  decide +kernel

/-- A client keeps the names of all its connections apart exactly if ten digits fit. -/
theorem client_names_distinct_iff (name : Bytes) (peer : InetAddr) :
    (∀ i j : Nat, i < 2 ^ 31 → j < 2 ^ 31 → i ≠ j →
      Differ (TcpClient.connName name peer i) (TcpClient.connName name peer j)) ↔ peer.hostPort.length ≤ 19 := by
  constructor
  case mp =>
    intro h
    by_contra hlong
    have hdiffer := (client_differ_iff name peer 1000000000 1000000001).mp (h _ _ (by decide) (by decide) (by decide))
    -- the last digit does not fit
    have hcut (n : Nat) (h : (decimalDigits n).take 9 = ascii "100000000") :
        (decimalDigits n).take (29 - peer.hostPort.length) = (ascii "100000000").take (29 - peer.hostPort.length) := by
      rw [← h, List.take_take, Nat.min_eq_left (by omega)]
    rw [hcut _ (by decide +kernel), hcut _ (by decide +kernel)] at hdiffer
    exact hdiffer rfl
  case mpr =>
    intro hshort i j hi hj hne
    have hten {n : Nat} (hn : n < 2 ^ 31) : (decimalDigits n).length ≤ 29 - peer.hostPort.length := by
      have hdigits : (decimalDigits n).length ≤ 10 := (length_decimalDigits_le (by decide)).mpr (by omega)
      omega
    rw [client_differ_iff, List.take_of_length_le (hten hi), List.take_of_length_le (hten hj)]
    exact fun heq => hne (decimalDigits_injective heq)

end Chtho.Net
