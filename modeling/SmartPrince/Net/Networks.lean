import Mathlib.Data.Fin.Basic
import SmartPrince.Lib.CString

/-! # The relay server, `networks.c`, `main.c` and `intr.c`

`net_server` answers one client after the other; what it answers with is the
relay command that the last signal or interrupt left in `Relay_Index`. Its two
buffers live on the stack across all clients, and nothing clears them. -/
namespace SmartPrince.Net.Networks
open SmartPrince.Lib.CString

/-- `BUFF_SIZE` -/
def buffSize : Nat := 200

/-- `WhoIAm` -/
def whoIAm : List UInt8 := ofText "GET /esp_wifi/ HTTP/1.1"

def relaySwitch : List String :=
  ["UNKNOWN", "GPON1", "GPON2", "GPON3", "GPON4", "GOFF1", "GOFF2", "GOFF3", "GOFF4"]

/-- The bytes from `buff_rcv` and from `buff_snd` on, and the global `Relay_Index`. -/
structure Server where
  buffRcv : List UInt8
  buffSnd : List UInt8
  relayIndex : Nat

/-- What one `recv` of `BUFF_SIZE` delivers; nothing where it returns no more than zero. -/
structure Received where
  bytes : List UInt8
  le : bytes.length ≤ buffSize

inductive Event where
  | relayOn (k : Fin 4)   -- `signal_relay_on1` to `signal_relay_on4`
  | relayOff (k : Fin 4)  -- `signal_relay_off1` to `signal_relay_off4`
  | ira1
  | client (r : Received)

/-- `IRA1` -/
def ira1 (s : Server) : Server := { s with relayIndex := if s.relayIndex = 1 then 5 else 1 }

/-- `recv(client_socket, buff_rcv, BUFF_SIZE, 0)` -/
def recv (s : Server) (r : Received) : Server :=
  { s with buffRcv := overwrite s.buffRcv r.bytes }

/-- The test that grants the client a relay command. -/
def recognised (s : Server) (r : Received) : Bool :=
  decide (r.bytes.length > 0) && strstr (recv s r).buffRcv whoIAm

/-- `sprintf(buff_snd, "\n%s\n", relay_switch[Relay_Index])` -/
def reply (s : Server) : Server :=
  let text := ofText "\n" ++ ofText (relaySwitch.getD s.relayIndex "") ++ ofText "\n"
  { s with buffSnd := overwrite s.buffSnd (text ++ [0]) }

def serve (s : Server) (r : Received) : Server :=
  if recognised s r then reply (recv s r) else recv s r

/-- `write(client_socket, buff_snd, strlen(buff_snd)+1)` -/
def written (s : Server) (r : Received) : List UInt8 :=
  let s := serve s r
  s.buffSnd.take (strlen s.buffSnd + 1)

def step (s : Server) : Event → Server
  | .relayOn k => { s with relayIndex := k + 1 }
  | .relayOff k => { s with relayIndex := k + 5 }
  | .ira1 => ira1 s
  | .client r => serve s r

end SmartPrince.Net.Networks
