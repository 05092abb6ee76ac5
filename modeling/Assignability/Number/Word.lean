namespace Assignability

def wordBound : Int := 9223372036854775808

def fitsWord (n : Int) : Bool := -wordBound ≤ n && n < wordBound

end Assignability
