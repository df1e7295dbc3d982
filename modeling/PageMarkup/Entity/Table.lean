import PageMarkup.Entity.UpperAToG
import PageMarkup.Entity.UpperHToO
import PageMarkup.Entity.UpperPToZ
import PageMarkup.Entity.LowerAToC
import PageMarkup.Entity.LowerDToH
import PageMarkup.Entity.LowerIToM
import PageMarkup.Entity.LowerNToP
import PageMarkup.Entity.LowerQToS
import PageMarkup.Entity.LowerTToZ

/-! The entities of the HTML standard, sorted by name. -/

namespace PageMarkup.Entity

def all : List Entity :=
  upperAToG ++ upperHToO ++ upperPToZ ++ lowerAToC ++ lowerDToH ++
    lowerIToM ++ lowerNToP ++ lowerQToS ++ lowerTToZ

/-- Entities in their present spelling, which ends with a semicolon. -/
def current : List Entity :=
  all.filter fun e => e.name.toList.getLast? = some ';'

end PageMarkup.Entity
