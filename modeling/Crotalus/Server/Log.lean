import Crotalus.Server.State

namespace Crotalus

/-! `log_error_doc` of `log.c`, with the time stamp of `util.c`. -/

/-- The array that the line is put together in. -/
def errorLineSize : Nat := 2048

/-- The offset of a time zone, given in seconds. -/
def zoneText (offset : Int) : Text :=
  let a := (offset.tdiv 60).natAbs
  [if offset ≥ 0 then 43 else 45,UInt8.ofNat (48+a/10/6/10),UInt8.ofNat (48+a/10/6%10),
    UInt8.ofNat (48+a/10%6),UInt8.ofNat (48+a%10)]

/-- `get_commonlog_time` for the fields of the current time. -/
def getCommonlogTime (t : Tm) (offset : Int) : Text :=
  [91]++twoDigits t.mday++[47]++(monthTab.getD t.mon.toNat []).take 3++[47]++
    (digitsRev 21 (1900+t.year).toNat).reverse++[58]++twoDigits t.hour++[58]++twoDigits t.min++
    [58]++twoDigits t.sec++[32]++zoneText offset++str "] "

def orNull (t : Option Text) : Text := t.getD (str "(null)")

/-- What `sprintf` puts behind the bytes that are there already, call by call. -/
def logErrorDocParts (e : Config) (r : Request) (time error : Text) : List Text :=
  (if e.virtualhost then [r.localIpAddr++str " "]
    else if e.vhostRoot≠none then [orNull r.host++str " "] else [])++
  (if e.vhostRoot≠none then
    [r.remoteIpAddr++str " - - "++time++str "request ["++orNull r.headerHost++str "] \""++
      orNull r.logline++str "\" (\""++orNull r.pathname++str "\"): "]
  else
    [r.remoteIpAddr++str " - - "++time++str "request \""++orNull r.logline++str "\" (\""++
      orNull r.pathname++str "\"): "])++
  [str " ("++error++str ")\n"]

/-- The line without its terminator. -/
def logErrorDoc (e : Config) (r : Request) (time error : Text) : Text :=
  (logErrorDocParts e r time error).flatten

end Crotalus
