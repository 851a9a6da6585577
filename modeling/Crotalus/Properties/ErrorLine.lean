import Crotalus.Properties.ModifiedSince
import Crotalus.Server.Header
import Crotalus.Server.Log

namespace Crotalus

open Calendar Stateful

/-! The array that `log_error_doc` fills, and what it formats into it. -/

/-- The bytes in front of the request: its address or host with virtual hosts. -/
def hostRoom (e : Config) (r : Request) : Nat :=
  if e.virtualhost then r.localIpAddr.length+1
  else if e.vhostRoot≠none then (orNull r.host).length+1 else 0

/-- The bytes of the line, by the strings that it is made of. -/
def errorRoom (e : Config) (r : Request) (time error : Text) : Nat :=
  hostRoom e r+(if e.vhostRoot≠none then 29+(orNull r.headerHost).length else 26)+
    r.remoteIpAddr.length+time.length+(orNull r.logline).length+(orNull r.pathname).length+
    error.length

theorem hostPart_length (e : Config) (r : Request) :
    (if e.virtualhost then [r.localIpAddr++str " "]
      else if e.vhostRoot≠none then [orNull r.host++str " "] else []).flatten.length=
    hostRoom e r := by
  unfold hostRoom
  split
  · rw [List.flatten_singleton,List.length_append]
    rfl
  · split
    · rw [List.flatten_singleton,List.length_append]
      rfl
    · rfl

theorem logErrorDoc_length (e : Config) (r : Request) (time error : Text) :
    (logErrorDoc e r time error).length=errorRoom e r time error := by
  have hlit : (str " - - ").length=5 ∧ (str "request [").length=9 ∧ (str "] \"").length=3 ∧
      (str "\" (\"").length=4 ∧ (str "\"): ").length=4 ∧ (str "request \"").length=9 ∧
      (str " (").length=2 ∧ (str ")\n").length=2 := by decide
  obtain ⟨h2,h3,h4,h5,h6,h7,h8,h9⟩ := hlit
  rw [logErrorDoc,logErrorDocParts,List.flatten_append,List.flatten_append,List.length_append,
    List.length_append,hostPart_length,errorRoom]
  split
  · simp only [List.flatten_singleton,List.length_append,h2,h3,h4,h5,h6,h8,h9]
    omega
  · simp only [List.flatten_singleton,List.length_append,h2,h5,h6,h7,h8,h9]
    omega

theorem digitsRev_four {k n : Nat} (h : 1000 ≤ n) (hn : n < 10000) :
    (digitsRev (k+4) n).length=4 := by
  rw [digitsRev,if_neg (by omega),digitsRev,if_neg (by omega),digitsRev,if_neg (by omega),
    digitsRev,if_pos (by omega)]
  rfl

/-- The time stamp takes 29 bytes, as its comment says, in years of four digits. -/
theorem getCommonlogTime_length {x : Moment} (hx : x.Valid) (hy : x.year < 10000) (w : Nat)
    (offset : Int) : (getCommonlogTime (tmOf x w) offset).length=29 := by
  have hmonth : ((monthTab.getD (tmOf x w).mon.toNat []).take 3).length=3 := by
    have hall : ∀ m < 12,((monthTab.getD m []).take 3).length=3 := by decide
    exact hall x.month hx.month
  have hyear : (digitsRev 21 (1900+(tmOf x w).year).toNat).reverse.length=4 := by
    have hnat : (1900+(tmOf x w).year).toNat=x.year := by
      change ((1900 : Int)+((x.year : Int)-1900)).toNat=x.year
      omega
    have h1970 := hx.year
    rw [hnat,List.length_reverse]
    exact digitsRev_four (k := 17) (by omega) hy
  have htwo : ∀ n : Int,(twoDigits n).length=2 := fun n => rfl
  have hzone : (zoneText offset).length=5 := rfl
  have hend : (str "] ").length=2 := rfl
  simp only [getCommonlogTime,List.length_append,List.length_cons,List.length_nil,hmonth,hyear,
    htwo,hzone,hend]

/-- The line and its terminator fit exactly when the strings leave room for both. -/
theorem errorLine_fits (e : Config) (r : Request) (time error : Text) :
    (logErrorDoc e r time error).length+1 ≤ errorLineSize ↔ errorRoom e r time error < 2048 := by
  rw [logErrorDoc_length,errorLineSize]
  omega

/-! A request for a long name that no file has. -/

def longLine : Text := str "GET /"++List.replicate 1000 97++str " HTTP/1.0"

def longConfig : Config where
  docroot := some (str "/var/www")

def longAsked : Conn :=
  exec (processLogline longConfig longLine) { req := { remoteIpAddr := str "10.0.0.1" } }

def longNamed : Conn := exec (translateUri longConfig) (exec (decodeUri longConfig) longAsked)

/-- The line is short enough for the header and the path for its buffer; log and terminator
take more than 2048 bytes all the same. -/
theorem errorLine_overflows : longLine.length < maxHeaderLength ∧
    value (translateUri longConfig) (exec (decodeUri longConfig) longAsked)=1 ∧
    longNamed.req.logline=some longLine ∧
    longNamed.req.pathname=some (str "/var/www/"++List.replicate 1000 97) ∧
    ¬(logErrorDoc longConfig longNamed.req (getCommonlogTime (tmOf (newYear 2015) 4) 0)
      (str "No such file or directory")).length+1 ≤ errorLineSize := by
  rw [logErrorDoc_length]
  decide +kernel

end Crotalus
