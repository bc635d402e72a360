namespace WebSocket

/-- Why a connection is closed. -/
inductive CloseCode where
  | normal
  | away
  | protocol
  | unsupported
  | status
  | abnormal
  | invalid
  | policy
  | size
  | extension
  | error
  | restart
  | again
  | tls
  | reserved (number : UInt16)
  | iana (number : UInt16)
  | library (number : UInt16)
  | bad (number : UInt16)
  deriving DecidableEq

namespace CloseCode

def ofNumber (number : UInt16) : CloseCode :=
  match number.toNat with
  | 1000 => .normal
  | 1001 => .away
  | 1002 => .protocol
  | 1003 => .unsupported
  | 1005 => .status
  | 1006 => .abnormal
  | 1007 => .invalid
  | 1008 => .policy
  | 1009 => .size
  | 1010 => .extension
  | 1011 => .error
  | 1012 => .restart
  | 1013 => .again
  | 1015 => .tls
  | n =>
    if n < 1000 then .bad number
    else if n < 3000 then .reserved number
    else if n < 4000 then .iana number
    else if n < 5000 then .library number
    else .bad number

def number : CloseCode → UInt16
  | .normal => 1000
  | .away => 1001
  | .protocol => 1002
  | .unsupported => 1003
  | .status => 1005
  | .abnormal => 1006
  | .invalid => 1007
  | .policy => 1008
  | .size => 1009
  | .extension => 1010
  | .error => 1011
  | .restart => 1012
  | .again => 1013
  | .tls => 1015
  | .reserved n | .iana n | .library n | .bad n => n

def isAllowed : CloseCode → Bool
  | .bad _ | .reserved _ | .status | .abnormal | .tls => false
  | _ => true

end CloseCode

end WebSocket
