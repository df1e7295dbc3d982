import PageMarkup.Entity.Basic

/-! Entities whose names begin with a letter from n to p, sorted by name. -/

namespace PageMarkup.Entity

def lowerNToP : List Entity :=
  [⟨"nGg;", "⋙\u0338"⟩, ⟨"nGt;", "≫\u20d2"⟩, ⟨"nGtv;", "≫\u0338"⟩, ⟨"nLeftarrow;", "⇍"⟩,
    ⟨"nLeftrightarrow;", "⇎"⟩, ⟨"nLl;", "⋘\u0338"⟩, ⟨"nLt;", "≪\u20d2"⟩, ⟨"nLtv;", "≪\u0338"⟩,
    ⟨"nRightarrow;", "⇏"⟩, ⟨"nVDash;", "⊯"⟩, ⟨"nVdash;", "⊮"⟩, ⟨"nabla;", "∇"⟩, ⟨"nacute;", "ń"⟩,
    ⟨"nang;", "∠\u20d2"⟩, ⟨"nap;", "≉"⟩, ⟨"napE;", "⩰\u0338"⟩, ⟨"napid;", "≋\u0338"⟩,
    ⟨"napos;", "ŉ"⟩, ⟨"napprox;", "≉"⟩, ⟨"natur;", "♮"⟩, ⟨"natural;", "♮"⟩, ⟨"naturals;", "ℕ"⟩,
    ⟨"nbsp", "\u00a0"⟩, ⟨"nbsp;", "\u00a0"⟩, ⟨"nbump;", "≎\u0338"⟩, ⟨"nbumpe;", "≏\u0338"⟩,
    ⟨"ncap;", "⩃"⟩, ⟨"ncaron;", "ň"⟩, ⟨"ncedil;", "ņ"⟩, ⟨"ncong;", "≇"⟩, ⟨"ncongdot;", "⩭\u0338"⟩,
    ⟨"ncup;", "⩂"⟩, ⟨"ncy;", "н"⟩, ⟨"ndash;", "–"⟩, ⟨"ne;", "≠"⟩, ⟨"neArr;", "⇗"⟩,
    ⟨"nearhk;", "⤤"⟩, ⟨"nearr;", "↗"⟩, ⟨"nearrow;", "↗"⟩, ⟨"nedot;", "≐\u0338"⟩, ⟨"nequiv;", "≢"⟩,
    ⟨"nesear;", "⤨"⟩, ⟨"nesim;", "≂\u0338"⟩, ⟨"nexist;", "∄"⟩, ⟨"nexists;", "∄"⟩, ⟨"nfr;", "𝔫"⟩,
    ⟨"ngE;", "≧\u0338"⟩, ⟨"nge;", "≱"⟩, ⟨"ngeq;", "≱"⟩, ⟨"ngeqq;", "≧\u0338"⟩,
    ⟨"ngeqslant;", "⩾\u0338"⟩, ⟨"nges;", "⩾\u0338"⟩, ⟨"ngsim;", "≵"⟩, ⟨"ngt;", "≯"⟩,
    ⟨"ngtr;", "≯"⟩, ⟨"nhArr;", "⇎"⟩, ⟨"nharr;", "↮"⟩, ⟨"nhpar;", "⫲"⟩, ⟨"ni;", "∋"⟩,
    ⟨"nis;", "⋼"⟩, ⟨"nisd;", "⋺"⟩, ⟨"niv;", "∋"⟩, ⟨"njcy;", "њ"⟩, ⟨"nlArr;", "⇍"⟩,
    ⟨"nlE;", "≦\u0338"⟩, ⟨"nlarr;", "↚"⟩, ⟨"nldr;", "‥"⟩, ⟨"nle;", "≰"⟩, ⟨"nleftarrow;", "↚"⟩,
    ⟨"nleftrightarrow;", "↮"⟩, ⟨"nleq;", "≰"⟩, ⟨"nleqq;", "≦\u0338"⟩, ⟨"nleqslant;", "⩽\u0338"⟩,
    ⟨"nles;", "⩽\u0338"⟩, ⟨"nless;", "≮"⟩, ⟨"nlsim;", "≴"⟩, ⟨"nlt;", "≮"⟩, ⟨"nltri;", "⋪"⟩,
    ⟨"nltrie;", "⋬"⟩, ⟨"nmid;", "∤"⟩, ⟨"nopf;", "𝕟"⟩, ⟨"not", "¬"⟩, ⟨"not;", "¬"⟩,
    ⟨"notin;", "∉"⟩, ⟨"notinE;", "⋹\u0338"⟩, ⟨"notindot;", "⋵\u0338"⟩, ⟨"notinva;", "∉"⟩,
    ⟨"notinvb;", "⋷"⟩, ⟨"notinvc;", "⋶"⟩, ⟨"notni;", "∌"⟩, ⟨"notniva;", "∌"⟩, ⟨"notnivb;", "⋾"⟩,
    ⟨"notnivc;", "⋽"⟩, ⟨"npar;", "∦"⟩, ⟨"nparallel;", "∦"⟩, ⟨"nparsl;", "⫽\u20e5"⟩,
    ⟨"npart;", "∂\u0338"⟩, ⟨"npolint;", "⨔"⟩, ⟨"npr;", "⊀"⟩, ⟨"nprcue;", "⋠"⟩,
    ⟨"npre;", "⪯\u0338"⟩, ⟨"nprec;", "⊀"⟩, ⟨"npreceq;", "⪯\u0338"⟩, ⟨"nrArr;", "⇏"⟩,
    ⟨"nrarr;", "↛"⟩, ⟨"nrarrc;", "⤳\u0338"⟩, ⟨"nrarrw;", "↝\u0338"⟩, ⟨"nrightarrow;", "↛"⟩,
    ⟨"nrtri;", "⋫"⟩, ⟨"nrtrie;", "⋭"⟩, ⟨"nsc;", "⊁"⟩, ⟨"nsccue;", "⋡"⟩, ⟨"nsce;", "⪰\u0338"⟩,
    ⟨"nscr;", "𝓃"⟩, ⟨"nshortmid;", "∤"⟩, ⟨"nshortparallel;", "∦"⟩, ⟨"nsim;", "≁"⟩,
    ⟨"nsime;", "≄"⟩, ⟨"nsimeq;", "≄"⟩, ⟨"nsmid;", "∤"⟩, ⟨"nspar;", "∦"⟩, ⟨"nsqsube;", "⋢"⟩,
    ⟨"nsqsupe;", "⋣"⟩, ⟨"nsub;", "⊄"⟩, ⟨"nsubE;", "⫅\u0338"⟩, ⟨"nsube;", "⊈"⟩,
    ⟨"nsubset;", "⊂\u20d2"⟩, ⟨"nsubseteq;", "⊈"⟩, ⟨"nsubseteqq;", "⫅\u0338"⟩, ⟨"nsucc;", "⊁"⟩,
    ⟨"nsucceq;", "⪰\u0338"⟩, ⟨"nsup;", "⊅"⟩, ⟨"nsupE;", "⫆\u0338"⟩, ⟨"nsupe;", "⊉"⟩,
    ⟨"nsupset;", "⊃\u20d2"⟩, ⟨"nsupseteq;", "⊉"⟩, ⟨"nsupseteqq;", "⫆\u0338"⟩, ⟨"ntgl;", "≹"⟩,
    ⟨"ntilde", "ñ"⟩, ⟨"ntilde;", "ñ"⟩, ⟨"ntlg;", "≸"⟩, ⟨"ntriangleleft;", "⋪"⟩,
    ⟨"ntrianglelefteq;", "⋬"⟩, ⟨"ntriangleright;", "⋫"⟩, ⟨"ntrianglerighteq;", "⋭"⟩, ⟨"nu;", "ν"⟩,
    ⟨"num;", "#"⟩, ⟨"numero;", "№"⟩, ⟨"numsp;", "\u2007"⟩, ⟨"nvDash;", "⊭"⟩, ⟨"nvHarr;", "⤄"⟩,
    ⟨"nvap;", "≍\u20d2"⟩, ⟨"nvdash;", "⊬"⟩, ⟨"nvge;", "≥\u20d2"⟩, ⟨"nvgt;", ">\u20d2"⟩,
    ⟨"nvinfin;", "⧞"⟩, ⟨"nvlArr;", "⤂"⟩, ⟨"nvle;", "≤\u20d2"⟩, ⟨"nvlt;", "<\u20d2"⟩,
    ⟨"nvltrie;", "⊴\u20d2"⟩, ⟨"nvrArr;", "⤃"⟩, ⟨"nvrtrie;", "⊵\u20d2"⟩, ⟨"nvsim;", "∼\u20d2"⟩,
    ⟨"nwArr;", "⇖"⟩, ⟨"nwarhk;", "⤣"⟩, ⟨"nwarr;", "↖"⟩, ⟨"nwarrow;", "↖"⟩, ⟨"nwnear;", "⤧"⟩,
    ⟨"oS;", "Ⓢ"⟩, ⟨"oacute", "ó"⟩, ⟨"oacute;", "ó"⟩, ⟨"oast;", "⊛"⟩, ⟨"ocir;", "⊚"⟩,
    ⟨"ocirc", "ô"⟩, ⟨"ocirc;", "ô"⟩, ⟨"ocy;", "о"⟩, ⟨"odash;", "⊝"⟩, ⟨"odblac;", "ő"⟩,
    ⟨"odiv;", "⨸"⟩, ⟨"odot;", "⊙"⟩, ⟨"odsold;", "⦼"⟩, ⟨"oelig;", "œ"⟩, ⟨"ofcir;", "⦿"⟩,
    ⟨"ofr;", "𝔬"⟩, ⟨"ogon;", "˛"⟩, ⟨"ograve", "ò"⟩, ⟨"ograve;", "ò"⟩, ⟨"ogt;", "⧁"⟩,
    ⟨"ohbar;", "⦵"⟩, ⟨"ohm;", "Ω"⟩, ⟨"oint;", "∮"⟩, ⟨"olarr;", "↺"⟩, ⟨"olcir;", "⦾"⟩,
    ⟨"olcross;", "⦻"⟩, ⟨"oline;", "‾"⟩, ⟨"olt;", "⧀"⟩, ⟨"omacr;", "ō"⟩, ⟨"omega;", "ω"⟩,
    ⟨"omicron;", "ο"⟩, ⟨"omid;", "⦶"⟩, ⟨"ominus;", "⊖"⟩, ⟨"oopf;", "𝕠"⟩, ⟨"opar;", "⦷"⟩,
    ⟨"operp;", "⦹"⟩, ⟨"oplus;", "⊕"⟩, ⟨"or;", "∨"⟩, ⟨"orarr;", "↻"⟩, ⟨"ord;", "⩝"⟩,
    ⟨"order;", "ℴ"⟩, ⟨"orderof;", "ℴ"⟩, ⟨"ordf", "ª"⟩, ⟨"ordf;", "ª"⟩, ⟨"ordm", "º"⟩,
    ⟨"ordm;", "º"⟩, ⟨"origof;", "⊶"⟩, ⟨"oror;", "⩖"⟩, ⟨"orslope;", "⩗"⟩, ⟨"orv;", "⩛"⟩,
    ⟨"oscr;", "ℴ"⟩, ⟨"oslash", "ø"⟩, ⟨"oslash;", "ø"⟩, ⟨"osol;", "⊘"⟩, ⟨"otilde", "õ"⟩,
    ⟨"otilde;", "õ"⟩, ⟨"otimes;", "⊗"⟩, ⟨"otimesas;", "⨶"⟩, ⟨"ouml", "ö"⟩, ⟨"ouml;", "ö"⟩,
    ⟨"ovbar;", "⌽"⟩, ⟨"par;", "∥"⟩, ⟨"para", "¶"⟩, ⟨"para;", "¶"⟩, ⟨"parallel;", "∥"⟩,
    ⟨"parsim;", "⫳"⟩, ⟨"parsl;", "⫽"⟩, ⟨"part;", "∂"⟩, ⟨"pcy;", "п"⟩, ⟨"percnt;", "%"⟩,
    ⟨"period;", "."⟩, ⟨"permil;", "‰"⟩, ⟨"perp;", "⊥"⟩, ⟨"pertenk;", "‱"⟩, ⟨"pfr;", "𝔭"⟩,
    ⟨"phi;", "φ"⟩, ⟨"phiv;", "ϕ"⟩, ⟨"phmmat;", "ℳ"⟩, ⟨"phone;", "☎"⟩, ⟨"pi;", "π"⟩,
    ⟨"pitchfork;", "⋔"⟩, ⟨"piv;", "ϖ"⟩, ⟨"planck;", "ℏ"⟩, ⟨"planckh;", "ℎ"⟩, ⟨"plankv;", "ℏ"⟩,
    ⟨"plus;", "+"⟩, ⟨"plusacir;", "⨣"⟩, ⟨"plusb;", "⊞"⟩, ⟨"pluscir;", "⨢"⟩, ⟨"plusdo;", "∔"⟩,
    ⟨"plusdu;", "⨥"⟩, ⟨"pluse;", "⩲"⟩, ⟨"plusmn", "±"⟩, ⟨"plusmn;", "±"⟩, ⟨"plussim;", "⨦"⟩,
    ⟨"plustwo;", "⨧"⟩, ⟨"pm;", "±"⟩, ⟨"pointint;", "⨕"⟩, ⟨"popf;", "𝕡"⟩, ⟨"pound", "£"⟩,
    ⟨"pound;", "£"⟩, ⟨"pr;", "≺"⟩, ⟨"prE;", "⪳"⟩, ⟨"prap;", "⪷"⟩, ⟨"prcue;", "≼"⟩, ⟨"pre;", "⪯"⟩,
    ⟨"prec;", "≺"⟩, ⟨"precapprox;", "⪷"⟩, ⟨"preccurlyeq;", "≼"⟩, ⟨"preceq;", "⪯"⟩,
    ⟨"precnapprox;", "⪹"⟩, ⟨"precneqq;", "⪵"⟩, ⟨"precnsim;", "⋨"⟩, ⟨"precsim;", "≾"⟩,
    ⟨"prime;", "′"⟩, ⟨"primes;", "ℙ"⟩, ⟨"prnE;", "⪵"⟩, ⟨"prnap;", "⪹"⟩, ⟨"prnsim;", "⋨"⟩,
    ⟨"prod;", "∏"⟩, ⟨"profalar;", "⌮"⟩, ⟨"profline;", "⌒"⟩, ⟨"profsurf;", "⌓"⟩, ⟨"prop;", "∝"⟩,
    ⟨"propto;", "∝"⟩, ⟨"prsim;", "≾"⟩, ⟨"prurel;", "⊰"⟩, ⟨"pscr;", "𝓅"⟩, ⟨"psi;", "ψ"⟩,
    ⟨"puncsp;", "\u2008"⟩]

end PageMarkup.Entity
