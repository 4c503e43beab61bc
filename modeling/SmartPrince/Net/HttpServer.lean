import SmartPrince.Net.HttpParser

/-! # One client of the HTTP server, `single-thread-http-server.c`

`s_handle_client` reads a header byte by byte, has it parsed and answers. What
its calls of `recv` return is given as a sequence, one entry a call. -/
namespace SmartPrince.Net.HttpServer
open SmartPrince.Lib.CString SmartPrince.Net.HttpParser

/-- What a `recv` of one byte returns. -/
inductive Recv where
  | byte (b : UInt8)
  | closed  -- 0
  | failed  -- -1

/-- `sizeof(header_buffer)` -/
def headerSize : Nat := 2048

/-- `sizeof(response_header)`, `sizeof(response_content)` -/
def responseSize : Nat := 4096

/-- The bytes received up to index `p` end with CR LF CR LF, and `p > 4`. -/
def endsHeader (received : List UInt8) : Bool :=
  let p := received.length - 1
  decide (p > 4) && received.drop (p - 3) == [13, 10, 13, 10]

/-- The loop: the last value of `read_len`, and the bytes received. `p` is
their number, and the number of calls before. -/
def readHeader (recv : Nat → Recv) : (room : Nat) → (received : List UInt8) → Int × List UInt8
  | 0, received => (-1, received)
  | room + 1, received =>
    match recv received.length with
    | .closed => (0, received)
    | .failed => (-1, received)
    | .byte b =>
      if endsHeader (received ++ [b]) then (1, received ++ [b])
      else readHeader recv room (received ++ [b])

/-- What lies on the stack around the arrays of the function and of its parser. -/
structure Stack where
  behindBuffer : List UInt8
  behindRequest : List UInt8
  belowLine : List UInt8

/-- `inet_ntop` of the client's address, and its port. -/
structure Client where
  ipAddress : List UInt8
  port : Nat

def responseContent (client : Client) (request : List UInt8) : List UInt8 :=
  let text := ofText "<h1>Your Request Information</h1><p>You IP Address: " ++
    client.ipAddress ++ ofText ":" ++ ofText (toString client.port) ++
    ofText "</p><ul><li>Method: " ++ cstr (request.drop methodOff) ++
    ofText "</li><li>Path: " ++ cstr (request.drop uriOff) ++
    ofText "</li><li>Protocol: " ++ cstr (request.drop protocolOff) ++ ofText "</li></ul>"
  snprintf responseSize text

def responseHeader (content : List UInt8) : List UInt8 :=
  snprintf responseSize (ofText "HTTP/1.1 200 OK\r\nContent-Type: text/html\r\nContent-Length: " ++
    ofText (toString (strlen content)) ++ ofText "\r\n\r\n")

/-- What became of a client: the bytes received from it, what the parser was
given and the fields it made of that, what was sent, and how often the socket
was closed. -/
structure Handled where
  received : List UInt8
  parsed : Option (List UInt8)
  fields : List HttpHeaderField
  sent : List (List UInt8)
  closed : Nat

def sHandleClient (recv : Nat → Recv) (client : Client) (stack : Stack) : Handled :=
  let (readLen, received) := readHeader recv headerSize []
  if readLen < 0 then
    -- socket closed
    { received, parsed := none, fields := [], sent := [], closed := 0 }
  else
    let headerBuffer := overwrite (zeros headerSize) received ++ stack.behindBuffer
    let (position, request) :=
      parseHttpRequestLine headerBuffer (zeros lineSize ++ stack.behindRequest)
    match position with
    | .offset n =>
      let fields := parseHttpHeader (headerBuffer.drop n) stack.belowLine []
      let content := responseContent client request
      let header := responseHeader content
      { received, parsed := some headerBuffer, fields, sent := [cstr header, cstr content], closed := 1 }
    | _ =>
      -- `s_find` reads through `NULL`, or through a pointer that was never set
      { received, parsed := some headerBuffer, fields := [], sent := [], closed := 0 }

end SmartPrince.Net.HttpServer
