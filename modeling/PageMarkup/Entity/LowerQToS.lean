import PageMarkup.Entity.Basic

/-! Entities whose names begin with a letter from q to s, sorted by name. -/

namespace PageMarkup.Entity

def lowerQToS : List Entity :=
  [⟨"qfr;", "𝔮"⟩, ⟨"qint;", "⨌"⟩, ⟨"qopf;", "𝕢"⟩, ⟨"qprime;", "⁗"⟩, ⟨"qscr;", "𝓆"⟩,
    ⟨"quaternions;", "ℍ"⟩, ⟨"quatint;", "⨖"⟩, ⟨"quest;", "?"⟩, ⟨"questeq;", "≟"⟩, ⟨"quot", "\""⟩,
    ⟨"quot;", "\""⟩, ⟨"rAarr;", "⇛"⟩, ⟨"rArr;", "⇒"⟩, ⟨"rAtail;", "⤜"⟩, ⟨"rBarr;", "⤏"⟩,
    ⟨"rHar;", "⥤"⟩, ⟨"race;", "∽\u0331"⟩, ⟨"racute;", "ŕ"⟩, ⟨"radic;", "√"⟩, ⟨"raemptyv;", "⦳"⟩,
    ⟨"rang;", "⟩"⟩, ⟨"rangd;", "⦒"⟩, ⟨"range;", "⦥"⟩, ⟨"rangle;", "⟩"⟩, ⟨"raquo", "»"⟩,
    ⟨"raquo;", "»"⟩, ⟨"rarr;", "→"⟩, ⟨"rarrap;", "⥵"⟩, ⟨"rarrb;", "⇥"⟩, ⟨"rarrbfs;", "⤠"⟩,
    ⟨"rarrc;", "⤳"⟩, ⟨"rarrfs;", "⤞"⟩, ⟨"rarrhk;", "↪"⟩, ⟨"rarrlp;", "↬"⟩, ⟨"rarrpl;", "⥅"⟩,
    ⟨"rarrsim;", "⥴"⟩, ⟨"rarrtl;", "↣"⟩, ⟨"rarrw;", "↝"⟩, ⟨"ratail;", "⤚"⟩, ⟨"ratio;", "∶"⟩,
    ⟨"rationals;", "ℚ"⟩, ⟨"rbarr;", "⤍"⟩, ⟨"rbbrk;", "❳"⟩, ⟨"rbrace;", "\x7d"⟩, ⟨"rbrack;", "]"⟩,
    ⟨"rbrke;", "⦌"⟩, ⟨"rbrksld;", "⦎"⟩, ⟨"rbrkslu;", "⦐"⟩, ⟨"rcaron;", "ř"⟩, ⟨"rcedil;", "ŗ"⟩,
    ⟨"rceil;", "⌉"⟩, ⟨"rcub;", "\x7d"⟩, ⟨"rcy;", "р"⟩, ⟨"rdca;", "⤷"⟩, ⟨"rdldhar;", "⥩"⟩,
    ⟨"rdquo;", "”"⟩, ⟨"rdquor;", "”"⟩, ⟨"rdsh;", "↳"⟩, ⟨"real;", "ℜ"⟩, ⟨"realine;", "ℛ"⟩,
    ⟨"realpart;", "ℜ"⟩, ⟨"reals;", "ℝ"⟩, ⟨"rect;", "▭"⟩, ⟨"reg", "®"⟩, ⟨"reg;", "®"⟩,
    ⟨"rfisht;", "⥽"⟩, ⟨"rfloor;", "⌋"⟩, ⟨"rfr;", "𝔯"⟩, ⟨"rhard;", "⇁"⟩, ⟨"rharu;", "⇀"⟩,
    ⟨"rharul;", "⥬"⟩, ⟨"rho;", "ρ"⟩, ⟨"rhov;", "ϱ"⟩, ⟨"rightarrow;", "→"⟩,
    ⟨"rightarrowtail;", "↣"⟩, ⟨"rightharpoondown;", "⇁"⟩, ⟨"rightharpoonup;", "⇀"⟩,
    ⟨"rightleftarrows;", "⇄"⟩, ⟨"rightleftharpoons;", "⇌"⟩, ⟨"rightrightarrows;", "⇉"⟩,
    ⟨"rightsquigarrow;", "↝"⟩, ⟨"rightthreetimes;", "⋌"⟩, ⟨"ring;", "˚"⟩, ⟨"risingdotseq;", "≓"⟩,
    ⟨"rlarr;", "⇄"⟩, ⟨"rlhar;", "⇌"⟩, ⟨"rlm;", "\u200f"⟩, ⟨"rmoust;", "⎱"⟩, ⟨"rmoustache;", "⎱"⟩,
    ⟨"rnmid;", "⫮"⟩, ⟨"roang;", "⟭"⟩, ⟨"roarr;", "⇾"⟩, ⟨"robrk;", "⟧"⟩, ⟨"ropar;", "⦆"⟩,
    ⟨"ropf;", "𝕣"⟩, ⟨"roplus;", "⨮"⟩, ⟨"rotimes;", "⨵"⟩, ⟨"rpar;", ")"⟩, ⟨"rpargt;", "⦔"⟩,
    ⟨"rppolint;", "⨒"⟩, ⟨"rrarr;", "⇉"⟩, ⟨"rsaquo;", "›"⟩, ⟨"rscr;", "𝓇"⟩, ⟨"rsh;", "↱"⟩,
    ⟨"rsqb;", "]"⟩, ⟨"rsquo;", "’"⟩, ⟨"rsquor;", "’"⟩, ⟨"rthree;", "⋌"⟩, ⟨"rtimes;", "⋊"⟩,
    ⟨"rtri;", "▹"⟩, ⟨"rtrie;", "⊵"⟩, ⟨"rtrif;", "▸"⟩, ⟨"rtriltri;", "⧎"⟩, ⟨"ruluhar;", "⥨"⟩,
    ⟨"rx;", "℞"⟩, ⟨"sacute;", "ś"⟩, ⟨"sbquo;", "‚"⟩, ⟨"sc;", "≻"⟩, ⟨"scE;", "⪴"⟩, ⟨"scap;", "⪸"⟩,
    ⟨"scaron;", "š"⟩, ⟨"sccue;", "≽"⟩, ⟨"sce;", "⪰"⟩, ⟨"scedil;", "ş"⟩, ⟨"scirc;", "ŝ"⟩,
    ⟨"scnE;", "⪶"⟩, ⟨"scnap;", "⪺"⟩, ⟨"scnsim;", "⋩"⟩, ⟨"scpolint;", "⨓"⟩, ⟨"scsim;", "≿"⟩,
    ⟨"scy;", "с"⟩, ⟨"sdot;", "⋅"⟩, ⟨"sdotb;", "⊡"⟩, ⟨"sdote;", "⩦"⟩, ⟨"seArr;", "⇘"⟩,
    ⟨"searhk;", "⤥"⟩, ⟨"searr;", "↘"⟩, ⟨"searrow;", "↘"⟩, ⟨"sect", "§"⟩, ⟨"sect;", "§"⟩,
    ⟨"semi;", ";"⟩, ⟨"seswar;", "⤩"⟩, ⟨"setminus;", "∖"⟩, ⟨"setmn;", "∖"⟩, ⟨"sext;", "✶"⟩,
    ⟨"sfr;", "𝔰"⟩, ⟨"sfrown;", "⌢"⟩, ⟨"sharp;", "♯"⟩, ⟨"shchcy;", "щ"⟩, ⟨"shcy;", "ш"⟩,
    ⟨"shortmid;", "∣"⟩, ⟨"shortparallel;", "∥"⟩, ⟨"shy", "\u00ad"⟩, ⟨"shy;", "\u00ad"⟩,
    ⟨"sigma;", "σ"⟩, ⟨"sigmaf;", "ς"⟩, ⟨"sigmav;", "ς"⟩, ⟨"sim;", "∼"⟩, ⟨"simdot;", "⩪"⟩,
    ⟨"sime;", "≃"⟩, ⟨"simeq;", "≃"⟩, ⟨"simg;", "⪞"⟩, ⟨"simgE;", "⪠"⟩, ⟨"siml;", "⪝"⟩,
    ⟨"simlE;", "⪟"⟩, ⟨"simne;", "≆"⟩, ⟨"simplus;", "⨤"⟩, ⟨"simrarr;", "⥲"⟩, ⟨"slarr;", "←"⟩,
    ⟨"smallsetminus;", "∖"⟩, ⟨"smashp;", "⨳"⟩, ⟨"smeparsl;", "⧤"⟩, ⟨"smid;", "∣"⟩,
    ⟨"smile;", "⌣"⟩, ⟨"smt;", "⪪"⟩, ⟨"smte;", "⪬"⟩, ⟨"smtes;", "⪬\ufe00"⟩, ⟨"softcy;", "ь"⟩,
    ⟨"sol;", "/"⟩, ⟨"solb;", "⧄"⟩, ⟨"solbar;", "⌿"⟩, ⟨"sopf;", "𝕤"⟩, ⟨"spades;", "♠"⟩,
    ⟨"spadesuit;", "♠"⟩, ⟨"spar;", "∥"⟩, ⟨"sqcap;", "⊓"⟩, ⟨"sqcaps;", "⊓\ufe00"⟩, ⟨"sqcup;", "⊔"⟩,
    ⟨"sqcups;", "⊔\ufe00"⟩, ⟨"sqsub;", "⊏"⟩, ⟨"sqsube;", "⊑"⟩, ⟨"sqsubset;", "⊏"⟩,
    ⟨"sqsubseteq;", "⊑"⟩, ⟨"sqsup;", "⊐"⟩, ⟨"sqsupe;", "⊒"⟩, ⟨"sqsupset;", "⊐"⟩,
    ⟨"sqsupseteq;", "⊒"⟩, ⟨"squ;", "□"⟩, ⟨"square;", "□"⟩, ⟨"squarf;", "▪"⟩, ⟨"squf;", "▪"⟩,
    ⟨"srarr;", "→"⟩, ⟨"sscr;", "𝓈"⟩, ⟨"ssetmn;", "∖"⟩, ⟨"ssmile;", "⌣"⟩, ⟨"sstarf;", "⋆"⟩,
    ⟨"star;", "☆"⟩, ⟨"starf;", "★"⟩, ⟨"straightepsilon;", "ϵ"⟩, ⟨"straightphi;", "ϕ"⟩,
    ⟨"strns;", "¯"⟩, ⟨"sub;", "⊂"⟩, ⟨"subE;", "⫅"⟩, ⟨"subdot;", "⪽"⟩, ⟨"sube;", "⊆"⟩,
    ⟨"subedot;", "⫃"⟩, ⟨"submult;", "⫁"⟩, ⟨"subnE;", "⫋"⟩, ⟨"subne;", "⊊"⟩, ⟨"subplus;", "⪿"⟩,
    ⟨"subrarr;", "⥹"⟩, ⟨"subset;", "⊂"⟩, ⟨"subseteq;", "⊆"⟩, ⟨"subseteqq;", "⫅"⟩,
    ⟨"subsetneq;", "⊊"⟩, ⟨"subsetneqq;", "⫋"⟩, ⟨"subsim;", "⫇"⟩, ⟨"subsub;", "⫕"⟩,
    ⟨"subsup;", "⫓"⟩, ⟨"succ;", "≻"⟩, ⟨"succapprox;", "⪸"⟩, ⟨"succcurlyeq;", "≽"⟩,
    ⟨"succeq;", "⪰"⟩, ⟨"succnapprox;", "⪺"⟩, ⟨"succneqq;", "⪶"⟩, ⟨"succnsim;", "⋩"⟩,
    ⟨"succsim;", "≿"⟩, ⟨"sum;", "∑"⟩, ⟨"sung;", "♪"⟩, ⟨"sup1", "¹"⟩, ⟨"sup1;", "¹"⟩,
    ⟨"sup2", "²"⟩, ⟨"sup2;", "²"⟩, ⟨"sup3", "³"⟩, ⟨"sup3;", "³"⟩, ⟨"sup;", "⊃"⟩, ⟨"supE;", "⫆"⟩,
    ⟨"supdot;", "⪾"⟩, ⟨"supdsub;", "⫘"⟩, ⟨"supe;", "⊇"⟩, ⟨"supedot;", "⫄"⟩, ⟨"suphsol;", "⟉"⟩,
    ⟨"suphsub;", "⫗"⟩, ⟨"suplarr;", "⥻"⟩, ⟨"supmult;", "⫂"⟩, ⟨"supnE;", "⫌"⟩, ⟨"supne;", "⊋"⟩,
    ⟨"supplus;", "⫀"⟩, ⟨"supset;", "⊃"⟩, ⟨"supseteq;", "⊇"⟩, ⟨"supseteqq;", "⫆"⟩,
    ⟨"supsetneq;", "⊋"⟩, ⟨"supsetneqq;", "⫌"⟩, ⟨"supsim;", "⫈"⟩, ⟨"supsub;", "⫔"⟩,
    ⟨"supsup;", "⫖"⟩, ⟨"swArr;", "⇙"⟩, ⟨"swarhk;", "⤦"⟩, ⟨"swarr;", "↙"⟩, ⟨"swarrow;", "↙"⟩,
    ⟨"swnwar;", "⤪"⟩, ⟨"szlig", "ß"⟩, ⟨"szlig;", "ß"⟩]

end PageMarkup.Entity
