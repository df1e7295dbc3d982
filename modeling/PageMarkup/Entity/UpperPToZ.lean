import PageMarkup.Entity.Basic

/-! Entities whose names begin with a letter from P to Z, sorted by name. -/

namespace PageMarkup.Entity

def upperPToZ : List Entity :=
  [⟨"PartialD;", "∂"⟩, ⟨"Pcy;", "П"⟩, ⟨"Pfr;", "𝔓"⟩, ⟨"Phi;", "Φ"⟩, ⟨"Pi;", "Π"⟩,
    ⟨"PlusMinus;", "±"⟩, ⟨"Poincareplane;", "ℌ"⟩, ⟨"Popf;", "ℙ"⟩, ⟨"Pr;", "⪻"⟩,
    ⟨"Precedes;", "≺"⟩, ⟨"PrecedesEqual;", "⪯"⟩, ⟨"PrecedesSlantEqual;", "≼"⟩,
    ⟨"PrecedesTilde;", "≾"⟩, ⟨"Prime;", "″"⟩, ⟨"Product;", "∏"⟩, ⟨"Proportion;", "∷"⟩,
    ⟨"Proportional;", "∝"⟩, ⟨"Pscr;", "𝒫"⟩, ⟨"Psi;", "Ψ"⟩, ⟨"QUOT", "\""⟩, ⟨"QUOT;", "\""⟩,
    ⟨"Qfr;", "𝔔"⟩, ⟨"Qopf;", "ℚ"⟩, ⟨"Qscr;", "𝒬"⟩, ⟨"RBarr;", "⤐"⟩, ⟨"REG", "®"⟩, ⟨"REG;", "®"⟩,
    ⟨"Racute;", "Ŕ"⟩, ⟨"Rang;", "⟫"⟩, ⟨"Rarr;", "↠"⟩, ⟨"Rarrtl;", "⤖"⟩, ⟨"Rcaron;", "Ř"⟩,
    ⟨"Rcedil;", "Ŗ"⟩, ⟨"Rcy;", "Р"⟩, ⟨"Re;", "ℜ"⟩, ⟨"ReverseElement;", "∋"⟩,
    ⟨"ReverseEquilibrium;", "⇋"⟩, ⟨"ReverseUpEquilibrium;", "⥯"⟩, ⟨"Rfr;", "ℜ"⟩, ⟨"Rho;", "Ρ"⟩,
    ⟨"RightAngleBracket;", "⟩"⟩, ⟨"RightArrow;", "→"⟩, ⟨"RightArrowBar;", "⇥"⟩,
    ⟨"RightArrowLeftArrow;", "⇄"⟩, ⟨"RightCeiling;", "⌉"⟩, ⟨"RightDoubleBracket;", "⟧"⟩,
    ⟨"RightDownTeeVector;", "⥝"⟩, ⟨"RightDownVector;", "⇂"⟩, ⟨"RightDownVectorBar;", "⥕"⟩,
    ⟨"RightFloor;", "⌋"⟩, ⟨"RightTee;", "⊢"⟩, ⟨"RightTeeArrow;", "↦"⟩, ⟨"RightTeeVector;", "⥛"⟩,
    ⟨"RightTriangle;", "⊳"⟩, ⟨"RightTriangleBar;", "⧐"⟩, ⟨"RightTriangleEqual;", "⊵"⟩,
    ⟨"RightUpDownVector;", "⥏"⟩, ⟨"RightUpTeeVector;", "⥜"⟩, ⟨"RightUpVector;", "↾"⟩,
    ⟨"RightUpVectorBar;", "⥔"⟩, ⟨"RightVector;", "⇀"⟩, ⟨"RightVectorBar;", "⥓"⟩,
    ⟨"Rightarrow;", "⇒"⟩, ⟨"Ropf;", "ℝ"⟩, ⟨"RoundImplies;", "⥰"⟩, ⟨"Rrightarrow;", "⇛"⟩,
    ⟨"Rscr;", "ℛ"⟩, ⟨"Rsh;", "↱"⟩, ⟨"RuleDelayed;", "⧴"⟩, ⟨"SHCHcy;", "Щ"⟩, ⟨"SHcy;", "Ш"⟩,
    ⟨"SOFTcy;", "Ь"⟩, ⟨"Sacute;", "Ś"⟩, ⟨"Sc;", "⪼"⟩, ⟨"Scaron;", "Š"⟩, ⟨"Scedil;", "Ş"⟩,
    ⟨"Scirc;", "Ŝ"⟩, ⟨"Scy;", "С"⟩, ⟨"Sfr;", "𝔖"⟩, ⟨"ShortDownArrow;", "↓"⟩,
    ⟨"ShortLeftArrow;", "←"⟩, ⟨"ShortRightArrow;", "→"⟩, ⟨"ShortUpArrow;", "↑"⟩, ⟨"Sigma;", "Σ"⟩,
    ⟨"SmallCircle;", "∘"⟩, ⟨"Sopf;", "𝕊"⟩, ⟨"Sqrt;", "√"⟩, ⟨"Square;", "□"⟩,
    ⟨"SquareIntersection;", "⊓"⟩, ⟨"SquareSubset;", "⊏"⟩, ⟨"SquareSubsetEqual;", "⊑"⟩,
    ⟨"SquareSuperset;", "⊐"⟩, ⟨"SquareSupersetEqual;", "⊒"⟩, ⟨"SquareUnion;", "⊔"⟩,
    ⟨"Sscr;", "𝒮"⟩, ⟨"Star;", "⋆"⟩, ⟨"Sub;", "⋐"⟩, ⟨"Subset;", "⋐"⟩, ⟨"SubsetEqual;", "⊆"⟩,
    ⟨"Succeeds;", "≻"⟩, ⟨"SucceedsEqual;", "⪰"⟩, ⟨"SucceedsSlantEqual;", "≽"⟩,
    ⟨"SucceedsTilde;", "≿"⟩, ⟨"SuchThat;", "∋"⟩, ⟨"Sum;", "∑"⟩, ⟨"Sup;", "⋑"⟩, ⟨"Superset;", "⊃"⟩,
    ⟨"SupersetEqual;", "⊇"⟩, ⟨"Supset;", "⋑"⟩, ⟨"THORN", "Þ"⟩, ⟨"THORN;", "Þ"⟩, ⟨"TRADE;", "™"⟩,
    ⟨"TSHcy;", "Ћ"⟩, ⟨"TScy;", "Ц"⟩, ⟨"Tab;", "\t"⟩, ⟨"Tau;", "Τ"⟩, ⟨"Tcaron;", "Ť"⟩,
    ⟨"Tcedil;", "Ţ"⟩, ⟨"Tcy;", "Т"⟩, ⟨"Tfr;", "𝔗"⟩, ⟨"Therefore;", "∴"⟩, ⟨"Theta;", "Θ"⟩,
    ⟨"ThickSpace;", "\u205f\u200a"⟩, ⟨"ThinSpace;", "\u2009"⟩, ⟨"Tilde;", "∼"⟩,
    ⟨"TildeEqual;", "≃"⟩, ⟨"TildeFullEqual;", "≅"⟩, ⟨"TildeTilde;", "≈"⟩, ⟨"Topf;", "𝕋"⟩,
    ⟨"TripleDot;", "\u20db"⟩, ⟨"Tscr;", "𝒯"⟩, ⟨"Tstrok;", "Ŧ"⟩, ⟨"Uacute", "Ú"⟩, ⟨"Uacute;", "Ú"⟩,
    ⟨"Uarr;", "↟"⟩, ⟨"Uarrocir;", "⥉"⟩, ⟨"Ubrcy;", "Ў"⟩, ⟨"Ubreve;", "Ŭ"⟩, ⟨"Ucirc", "Û"⟩,
    ⟨"Ucirc;", "Û"⟩, ⟨"Ucy;", "У"⟩, ⟨"Udblac;", "Ű"⟩, ⟨"Ufr;", "𝔘"⟩, ⟨"Ugrave", "Ù"⟩,
    ⟨"Ugrave;", "Ù"⟩, ⟨"Umacr;", "Ū"⟩, ⟨"UnderBar;", "_"⟩, ⟨"UnderBrace;", "⏟"⟩,
    ⟨"UnderBracket;", "⎵"⟩, ⟨"UnderParenthesis;", "⏝"⟩, ⟨"Union;", "⋃"⟩, ⟨"UnionPlus;", "⊎"⟩,
    ⟨"Uogon;", "Ų"⟩, ⟨"Uopf;", "𝕌"⟩, ⟨"UpArrow;", "↑"⟩, ⟨"UpArrowBar;", "⤒"⟩,
    ⟨"UpArrowDownArrow;", "⇅"⟩, ⟨"UpDownArrow;", "↕"⟩, ⟨"UpEquilibrium;", "⥮"⟩, ⟨"UpTee;", "⊥"⟩,
    ⟨"UpTeeArrow;", "↥"⟩, ⟨"Uparrow;", "⇑"⟩, ⟨"Updownarrow;", "⇕"⟩, ⟨"UpperLeftArrow;", "↖"⟩,
    ⟨"UpperRightArrow;", "↗"⟩, ⟨"Upsi;", "ϒ"⟩, ⟨"Upsilon;", "Υ"⟩, ⟨"Uring;", "Ů"⟩, ⟨"Uscr;", "𝒰"⟩,
    ⟨"Utilde;", "Ũ"⟩, ⟨"Uuml", "Ü"⟩, ⟨"Uuml;", "Ü"⟩, ⟨"VDash;", "⊫"⟩, ⟨"Vbar;", "⫫"⟩,
    ⟨"Vcy;", "В"⟩, ⟨"Vdash;", "⊩"⟩, ⟨"Vdashl;", "⫦"⟩, ⟨"Vee;", "⋁"⟩, ⟨"Verbar;", "‖"⟩,
    ⟨"Vert;", "‖"⟩, ⟨"VerticalBar;", "∣"⟩, ⟨"VerticalLine;", "|"⟩, ⟨"VerticalSeparator;", "❘"⟩,
    ⟨"VerticalTilde;", "≀"⟩, ⟨"VeryThinSpace;", "\u200a"⟩, ⟨"Vfr;", "𝔙"⟩, ⟨"Vopf;", "𝕍"⟩,
    ⟨"Vscr;", "𝒱"⟩, ⟨"Vvdash;", "⊪"⟩, ⟨"Wcirc;", "Ŵ"⟩, ⟨"Wedge;", "⋀"⟩, ⟨"Wfr;", "𝔚"⟩,
    ⟨"Wopf;", "𝕎"⟩, ⟨"Wscr;", "𝒲"⟩, ⟨"Xfr;", "𝔛"⟩, ⟨"Xi;", "Ξ"⟩, ⟨"Xopf;", "𝕏"⟩, ⟨"Xscr;", "𝒳"⟩,
    ⟨"YAcy;", "Я"⟩, ⟨"YIcy;", "Ї"⟩, ⟨"YUcy;", "Ю"⟩, ⟨"Yacute", "Ý"⟩, ⟨"Yacute;", "Ý"⟩,
    ⟨"Ycirc;", "Ŷ"⟩, ⟨"Ycy;", "Ы"⟩, ⟨"Yfr;", "𝔜"⟩, ⟨"Yopf;", "𝕐"⟩, ⟨"Yscr;", "𝒴"⟩, ⟨"Yuml;", "Ÿ"⟩,
    ⟨"ZHcy;", "Ж"⟩, ⟨"Zacute;", "Ź"⟩, ⟨"Zcaron;", "Ž"⟩, ⟨"Zcy;", "З"⟩, ⟨"Zdot;", "Ż"⟩,
    ⟨"ZeroWidthSpace;", "\u200b"⟩, ⟨"Zeta;", "Ζ"⟩, ⟨"Zfr;", "ℨ"⟩, ⟨"Zopf;", "ℤ"⟩, ⟨"Zscr;", "𝒵"⟩]

end PageMarkup.Entity
